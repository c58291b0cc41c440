import CodeAtlas.Proofs.Outline.Declarations
import CodeAtlas.Proofs.Outline.Program

namespace CodeAtlas.Outline

open Script

variable {text : Wording} {tree node : Node} {start place : Address} {step : Nat}

theorem IsTopLevel.step_prefix (top : IsTopLevel tree start node) (first : start.head? = some step) :
    [step] <+: start := by
  cases top with
  | statement =>
    obtain rfl := Option.some.inj first
    exact List.prefix_refl _
  | exported =>
    obtain rfl := Option.some.inj first
    exact List.prefix_append [_] [_]

/-- What is searched below a child of the tree is what is searched of its top-level statement. -/
theorem IsTopLevel.isSearched_iff (top : IsTopLevel tree start node)
    (first : start.head? = some step) :
    IsSearched text tree place ∧ [step] <+: place ↔ IsInRegion text node start place := by
  constructor
  · rintro ⟨⟨start', node', region, top', searched, within⟩, ⟨rest, rfl⟩⟩
    have same := top'.head?_eq ((List.prefix_append start' region).trans within)
    obtain ⟨rfl, rfl⟩ := top.unique_of_head top' (first.trans same)
    exact ⟨region, searched, within⟩
  · rintro ⟨region, searched, within⟩
    have above := (List.prefix_append start region).trans within
    exact ⟨⟨start, node, region, top, searched, within⟩, (top.step_prefix first).trans above⟩

theorem ofImport_calls (node : Node) : (ofImport text node).calls = [] := by
  unfold ofImport
  split <;> rfl

/-- An import statement is not searched. -/
theorem not_isSearched_of_importStatement (listed : tree.children[step]? = some node)
    (kind : node.kind = .importStatement) (above : [step] <+: place) :
    ¬IsSearched text tree place := by
  rintro ⟨start, other, region, top, _, within⟩
  obtain ⟨rest, rfl⟩ := above
  have same := top.head?_eq ((List.prefix_append start region).trans within)
  cases top with
  | statement listed' plain =>
    obtain rfl := Option.some.inj same
    obtain rfl := Option.some.inj (listed.symm.trans listed')
    exact plain kind
  | exported listed' exports =>
    obtain rfl := Option.some.inj same
    obtain rfl := Option.some.inj (listed.symm.trans listed')
    cases kind.symm.trans exports

theorem ofStatement_areCalls (text : Wording) (program : IsProgram tree)
    (listed : tree.children[step]? = some node) :
    AreCalls text tree (fun place => IsSearched text tree place ∧ [step] <+: place)
      (ofStatement text node).calls := by
  unfold ofStatement
  split
  · next kind =>
    rw [ofImport_calls]
    refine .nil ?_
    rintro place _ ⟨searched, above⟩
    exact not_isSearched_of_importStatement listed kind above searched
  · next kind =>
    split
    · next declaration declared =>
      obtain ⟨inner, declares, listed'⟩ := Node.child?_eq_some_iff.mp declared
      have top : IsTopLevel tree [step, inner] declaration := .exported listed kind declares listed'
      exact (ofDeclaration_areCalls program top true).congr fun _ _ => (top.isSearched_iff rfl).symm
    · next bare =>
      have top : IsTopLevel tree [step] node := .statement listed (by simp [kind]) fun _ => bare
      have sort : sortOf node.kind = .other := by rw [kind]; rfl
      have whole := top.areCalls_whole text program
        (fun other => by cases sort.symm.trans other) (.other sort)
      exact whole.congr fun _ _ => (top.isSearched_iff rfl).symm
  · next plain bare =>
    have top : IsTopLevel tree [step] node := .statement listed plain fun kind => absurd kind bare
    exact (ofDeclaration_areCalls program top false).congr fun _ _ => (top.isSearched_iff rfl).symm

theorem ofTree_areCalls (text : Wording) (program : IsProgram tree) :
    AreCalls text tree (IsSearched text tree) (ofTree text tree).calls := by
  have each := AreCalls.children (rfl : tree.at? [] = some tree) fun step statement listed =>
    ofStatement_areCalls text program listed
  unfold ofTree
  rw [join_calls, List.flatMap_map]
  refine each.congr fun place _ => and_iff_left_of_imp ?_
  rintro ⟨start, node, region, top, _, within⟩
  have above := (List.prefix_append start region).trans within
  cases top with
  | @statement step => exact ⟨step, above⟩
  | @exported step inner => exact ⟨step, (List.prefix_append [step] [inner]).trans above⟩

/-- Nodes that look like functions and never are the caller of what is in them. -/
inductive LeavesCaller (tree : Node) : Address → Prop
  /-- A function that is a value, whatever it calls itself. -/
  | literal {place : Address} {node : Node} :
      tree.at? place = some node → isFunctionValue node.kind = true → LeavesCaller tree place
  /-- A method of an object. -/
  | property {place : Address} {step : Nat} {object node : Node} :
      tree.at? place = some object → object.kind = .object → object.children[step]? = some node →
      node.kind = .methodDefinition → LeavesCaller tree (place ++ [step])
  /-- Variables that are declared by a pattern. -/
  | pattern {place : Address} {node : Node} :
      tree.at? place = some node → node.kind = .variableDeclarator →
      (∀ declared, node.child? .name = some declared → declared.kind ≠ .identifier) →
      LeavesCaller tree place

/-- The methods that are callers stand in the body of a class. -/
theorem IsMethod.kind_of_parent (program : IsProgram tree) {name : String}
    (method : IsMethod text tree (place ++ [step]) name) (here : tree.at? place = some node) :
    node.kind = .classBody := by
  generalize same : place ++ [step] = whole at method
  cases method with
  | @member start owner _ bodyPlace inner _ _ top sort _ bodied found =>
    obtain ⟨body, listed, _⟩ := Node.exists_child_of_at? found
    have split : place ++ [step] = start ++ [bodyPlace] ++ [inner] := by rw [same]; simp
    obtain ⟨rfl, _⟩ := List.append_inj' split rfl
    obtain rfl := Option.some.inj (here.symm.trans (Node.at?_child top.at?_eq listed))
    exact ((program.classes top sort) bodyPlace node bodied listed).1

theorem LeavesCaller.not_isContext (program : IsProgram tree) (leaves : LeavesCaller tree place)
    (name : String) : ¬IsContext text tree place name := by
  cases leaves with
  | @literal _ node here value =>
    intro context
    rcases (isContext_iff here).mp context with named | method
    · rcases callerName?_eq_some_iff.mp named with ⟨sort, _⟩ | ⟨kind, _⟩
      · rcases sortOf_eq_function_iff.mp sort with kind | kind <;> rw [kind] at value <;> cases value
      · rw [kind] at value
        cases value
    · rw [(method.of_at? here).1] at value
      cases value
  | property here kind listed declares =>
    intro context
    rcases (isContext_iff (Node.at?_child here listed)).mp context with named | method
    · cases (callerName?_of_methodDefinition declares).symm.trans named
    · cases kind.symm.trans (method.kind_of_parent program here)
  | pattern here kind unnamed =>
    intro context
    rcases (isContext_iff here).mp context with named | method
    · rcases callerName?_eq_some_iff.mp named with ⟨sort, _⟩ | ⟨_, _, named⟩
      · rw [kind] at sort
        cases sort
      · obtain ⟨declared, declares, word, _⟩ := variableName?_eq_some_iff.mp named
        exact unnamed declared declares word
    · cases kind.symm.trans (method.of_at? here).1

/-- Every call by name in the parts of a program that are searched is in the outline, once and in the
order of the source. Whatever source the grammar accepts is a program. -/
theorem calls_listed_once (text : Wording) (program : IsProgram tree) :
    ∃ listing, IsListing text tree (IsSearched text tree) (ofTree text tree).calls listing := by
  obtain ⟨listing, listed, _⟩ := ofTree_areCalls text program
  exact ⟨listing, listed⟩

theorem calls_listed_once_nested :
    let source := "class A { m() { f(g()); } }\nh();"
    let text : Wording := fun node => node.span.textIn source.toList.toArray
    ∃ tree, Script.parse .javascript source = .ok tree ∧ IsProgram tree ∧ ∃ listing,
      IsListing text tree (IsSearched text tree) (ofTree text tree).calls listing ∧
        listing.map (·.2.callee) = ["f", "g", "h"] := by
  intro source text
  have found : (Script.parse .javascript source).toOption.map
      (fun tree => (ofTree text tree).calls.map (·.callee)) = some ["f", "g", "h"] := by decide +kernel
  obtain ⟨tree, read, program, names⟩ := exists_isProgram found
  obtain ⟨listing, listed⟩ := calls_listed_once text program
  refine ⟨tree, read, program, listing, listed, ?_⟩
  rw [← names, ← listed.calls_eq, List.map_map]
  rfl

/-- The caller of a call in the outline is the innermost of the functions around it that have a name
of their own, if there is one; other functions around it do not count. -/
theorem caller_innermost (text : Wording) (program : IsProgram tree) :
    (∃ listing, IsListing text tree (IsSearched text tree) (ofTree text tree).calls listing ∧
      ∀ item ∈ listing,
        (∀ name, item.2.caller = some name ↔
          IsNearest text tree (Address.Encloses · item.1) name) ∧
        (item.2.caller = none ↔
          ∀ outer name, outer.Encloses item.1 → ¬IsContext text tree outer name)) ∧
      ∀ place, LeavesCaller tree place → ∀ caller,
        IsCaller text tree (· <+: place) caller ↔ IsCaller text tree (Address.Encloses · place) caller := by
  refine ⟨?_, fun place leaves caller => isCaller_below_iff (leaves.not_isContext program)⟩
  obtain ⟨listing, listed, callers⟩ := ofTree_areCalls text program
  exact ⟨listing, listed, fun item member =>
    ⟨(callers item member).some_iff, (callers item member).none_iff⟩⟩

theorem caller_innermost_method :
    let source := "class A { m() { f(() => g()); } }\nh();"
    let text : Wording := fun node => node.span.textIn source.toList.toArray
    ∃ tree, Script.parse .javascript source = .ok tree ∧ IsProgram tree ∧ ∃ listing,
      IsListing text tree (IsSearched text tree) (ofTree text tree).calls listing ∧
        listing.map (·.2.caller) = [some "A.m", some "A.m", none] ∧
        ∀ item ∈ listing, item.2.caller = none →
          ∀ outer name, outer.Encloses item.1 → ¬IsContext text tree outer name := by
  intro source text
  have found : (Script.parse .javascript source).toOption.map
      (fun tree => (ofTree text tree).calls.map (·.caller)) =
        some [some "A.m", some "A.m", none] := by decide +kernel
  obtain ⟨tree, read, program, names⟩ := exists_isProgram found
  obtain ⟨⟨listing, listed, callers⟩, _⟩ := caller_innermost text program
  refine ⟨tree, read, program, listing, listed, ?_, fun item member => (callers item member).2.mp⟩
  rw [← names, ← listed.calls_eq, List.map_map]
  rfl

end CodeAtlas.Outline
