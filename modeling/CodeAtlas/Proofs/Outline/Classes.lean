import CodeAtlas.Proofs.Outline.Calls
import Mathlib.Data.List.Infix

namespace CodeAtlas.Outline

open Script

variable (text : Wording) {tree node : Node} {method place outer : Address} {name other : String}

/-- The node at an address is a method with a name, in the body of a class declaration with a name,
wherever that stands. -/
inductive IsClassMethod (tree : Node) : Address → String → Prop
  | member {start : Address} {owner member : Node} {step inner : Nat} {ownerName name : String} :
      tree.at? start = some owner → sortOf owner.kind = .classDecl →
      name? text owner = some ownerName → owner.place? .body = some step →
      owner.at? [step, inner] = some member → member.kind = .methodDefinition →
      name? text member = some name →
      IsClassMethod tree (start ++ [step, inner]) (ownerName ++ "." ++ name)

/-- The node at an address is a function with a name, or a method of a class declaration. -/
def IsScope (tree : Node) (place : Address) (name : String) : Prop :=
  IsContext text tree place name ∨ IsClassMethod text tree place name

/-- Of the functions and methods around an address, the method is the nearest. -/
structure IsInMethod (tree : Node) (method : Address) (name : String) (place : Address) : Prop where
  isClassMethod : IsClassMethod text tree method name
  around : method.Encloses place
  nearest : ∀ outer other, outer.Encloses place → IsScope text tree outer other → outer <+: method

variable {text}

theorem IsMethod.isClassMethod (isMethod : IsMethod text tree method name) :
    IsClassMethod text tree method name := by
  cases isMethod with
  | member top sort named bodied listed declares owned =>
    exact .member top.at?_eq sort named bodied listed declares owned

theorem IsClassMethod.kind_eq (isMethod : IsClassMethod text tree method name)
    (here : tree.at? method = some node) : node.kind = .methodDefinition := by
  cases isMethod with
  | member found _ _ _ listed declares _ =>
    obtain rfl := Option.some.inj (here.symm.trans ((Node.at?_of_at? found _).trans listed))
    exact declares

theorem IsClassMethod.unique (isMethod : IsClassMethod text tree method name)
    (isMethod' : IsClassMethod text tree method other) : name = other := by
  generalize same : method = whole at isMethod'
  cases isMethod with
  | member found _ named _ listed _ owned =>
    cases isMethod' with
    | member found' _ named' _ listed' _ owned' =>
      obtain ⟨rfl, steps⟩ := List.append_inj' same rfl
      obtain rfl := Option.some.inj (found.symm.trans found')
      obtain ⟨rfl, rfl⟩ : _ = _ ∧ _ = _ := by simpa using steps
      obtain rfl := Option.some.inj (listed.symm.trans listed')
      obtain rfl := Option.some.inj (named.symm.trans named')
      obtain rfl := Option.some.inj (owned.symm.trans owned')
      rfl

namespace IsInMethod

variable {caller : Option String}

/-- A method of a top-level class is the caller of what it calls. -/
theorem isNearest (inside : IsInMethod text tree method name place)
    (isMethod : IsMethod text tree method name) :
    IsNearest text tree (Address.Encloses · place) name :=
  ⟨method, inside.around, .method isMethod,
    fun outer other around context => inside.nearest outer other around (.inl context)⟩

/-- A method of another class leaves the caller as it is. -/
theorem isCaller_iff (inside : IsInMethod text tree method name place)
    (nested : ¬IsMethod text tree method name) :
    IsCaller text tree (Address.Encloses · place) caller ↔
      IsCaller text tree (Address.Encloses · method) caller := by
  refine isCaller_congr fun outer other context => ⟨fun around => ?_, fun around => ?_⟩
  · refine ⟨inside.nearest outer other around (.inl context), ?_⟩
    rintro rfl
    obtain ⟨node, here⟩ := context.exists_node
    have kind := inside.isClassMethod.kind_eq here
    rcases (isContext_iff here).mp context with named | isMethod
    · cases (callerName?_of_methodDefinition kind).symm.trans named
    · obtain rfl := inside.isClassMethod.unique isMethod.isClassMethod
      exact nested isMethod
  · refine ⟨around.1.trans inside.around.1, ?_⟩
    rintro rfl
    exact inside.around.2 (Address.prefix_antisymm inside.around.1 around.1)

end IsInMethod

section Computed

instance (node : Node) : Decidable node.IsNamedCall :=
  decidable_of_iff
    (node.kind = .callExpression ∧ (node.child? .callee).any (fun callee =>
      callee.kind == .identifier ||
        (callee.kind == .memberExpression && (callee.child? .property).isSome)) = true) <| by
    simp [Node.IsNamedCall, Option.any_eq_true, Option.isSome_iff_exists]

/-- Whether a node of the kind may be a function or method that has a name. -/
def mayHaveName : Kind → Bool
  | .functionDeclaration => true
  | .generatorFunctionDeclaration => true
  | .variableDeclarator => true
  | .methodDefinition => true
  | _ => false

theorem IsScope.mayHaveName (scope : IsScope text tree place name) :
    ∃ node, tree.at? place = some node ∧ Outline.mayHaveName node.kind = true := by
  rcases scope with context | isMethod
  · obtain ⟨node, here⟩ := context.exists_node
    refine ⟨node, here, ?_⟩
    rcases (isContext_iff here).mp context with named | isMethod
    · rcases callerName?_eq_some_iff.mp named with ⟨sort, _⟩ | ⟨kind, _⟩
      · rcases sortOf_eq_function_iff.mp sort with kind | kind <;> rw [kind] <;> rfl
      · rw [kind]
        rfl
    · rw [isMethod.isClassMethod.kind_eq here]
      rfl
  · have known := isMethod
    cases known with
    | member found _ _ _ listed declares _ =>
      exact ⟨_, (Node.at?_of_at? found _).trans listed, by rw [declares]; rfl⟩

/-- Whether a call by name stands below a method, with no function or method between them that has a
name. -/
def isCallBelow (tree : Node) (method place : Address) : Bool :=
  method.isPrefixOf place && method != place && (tree.at? place).any (decide ·.IsNamedCall) &&
    place.inits.all fun outer =>
      decide (outer.length ≤ method.length) || !(tree.at? outer).any (mayHaveName ·.kind)

theorem isInMethod_of_isCallBelow (isMethod : IsClassMethod text tree method name)
    (call : isCallBelow tree method place = true) :
    ∃ node, tree.at? place = some node ∧ node.IsNamedCall ∧ IsInMethod text tree method name place := by
  simp only [isCallBelow, Bool.and_eq_true, List.isPrefixOf_iff_prefix, bne_iff_ne,
    Option.any_eq_true, decide_eq_true_eq] at call
  obtain ⟨⟨⟨within, apart⟩, node, here, called⟩, plain⟩ := call
  refine ⟨node, here, called, isMethod, ⟨within, apart⟩, fun outer other around scope => ?_⟩
  have checked := List.all_eq_true.mp plain outer ((List.mem_inits outer place).mpr around.1)
  obtain ⟨node, here, kind⟩ := scope.mayHaveName
  rw [here, Option.any_some, kind, Bool.not_true, Bool.or_false, decide_eq_true_eq] at checked
  exact List.prefix_of_prefix_length_le around.1 within checked

/-- Whether a child of the body of a class declaration is a method with a name. -/
def isClassMethodAt (text : Wording) (tree : Node) (start : Address) (step inner : Nat)
    (name : String) : Bool :=
  (tree.at? start).any fun owner =>
    sortOf owner.kind == .classDecl && owner.place? .body == some step &&
      (owner.at? [step, inner]).any fun member =>
        member.kind == .methodDefinition &&
          (name? text owner).any fun ownerName =>
            (name? text member).any fun own => ownerName ++ "." ++ own == name

theorem exists_of_isClassMethodAt {start : Address} {step inner : Nat}
    (found : isClassMethodAt text tree start step inner name = true) :
    ∃ owner member ownerName own, tree.at? start = some owner ∧ sortOf owner.kind = .classDecl ∧
      owner.place? .body = some step ∧ owner.at? [step, inner] = some member ∧
      member.kind = .methodDefinition ∧ name? text owner = some ownerName ∧
      name? text member = some own ∧ ownerName ++ "." ++ own = name := by
  simp only [isClassMethodAt, Option.any_eq_true, Bool.and_eq_true, beq_iff_eq] at found
  obtain ⟨owner, here, ⟨sort, bodied⟩, member, listed, declares, ownerName, named, own, owned, same⟩ :=
    found
  exact ⟨owner, member, ownerName, own, here, sort, bodied, listed, declares, named, owned, same⟩

theorem isClassMethod_of_isClassMethodAt {start : Address} {step inner : Nat}
    (found : isClassMethodAt text tree start step inner name = true) :
    IsClassMethod text tree (start ++ [step, inner]) name := by
  obtain ⟨_, _, _, _, here, sort, bodied, listed, declares, named, owned, rfl⟩ :=
    exists_of_isClassMethodAt found
  exact .member here sort named bodied listed declares owned

theorem IsTopLevel.isMethod {start : Address} {step inner : Nat} (top : IsTopLevel tree start node)
    (found : isClassMethodAt text tree start step inner name = true) :
    IsMethod text tree (start ++ [step, inner]) name := by
  obtain ⟨_, _, _, _, here, sort, bodied, listed, declares, named, owned, rfl⟩ :=
    exists_of_isClassMethodAt found
  obtain rfl := Option.some.inj (top.at?_eq.symm.trans here)
  exact .member top sort named bodied listed declares owned

/-- What a method of a top-level class calls is in the outline. -/
theorem IsTopLevel.isSearched_method {start : Address} {step inner : Nat}
    (top : IsTopLevel tree start node)
    (found : isClassMethodAt text tree start step inner name = true)
    (within : start ++ [step, inner] <+: place) : IsSearched text tree place := by
  obtain ⟨_, _, _, _, here, sort, bodied, _, _, named, _, _⟩ := exists_of_isClassMethodAt found
  obtain rfl := Option.some.inj (top.at?_eq.symm.trans here)
  refine ⟨start, node, [step], top, .body sort named bodied, List.IsPrefix.trans ?_ within⟩
  exact ⟨[inner], by rw [List.append_assoc]; rfl⟩

theorem IsListing.exists_call {searched : Address → Prop} {calls : List CallSite}
    {listing : List (Address × CallSite)} (listed : IsListing text tree searched calls listing)
    (here : tree.at? place = some node) (called : node.IsNamedCall) (inside : searched place) :
    ∃ call ∈ calls, (place, call) ∈ listing := by
  have member := (listed.mem_iff place).mpr ⟨(Node.callsAt_iff here).mpr called, inside⟩
  obtain ⟨item, among, rfl⟩ := List.mem_map.mp member
  exact ⟨item.2, listed.calls_eq ▸ List.mem_map_of_mem among, among⟩

end Computed

/-- A method is the caller of what it calls, and of what is called in functions without a name in it, if
and only if its class is declared at the top level; or if a function around the class happens to have
the same name, since then that function is the caller: any function that is nearest to the method, or
none if there is none. -/
theorem caller_in_class_iff (text : Wording) (program : IsProgram tree) :
    ∃ listing, IsListing text tree (IsSearched text tree) (ofTree text tree).calls listing ∧
      ∀ item ∈ listing, ∀ method name, IsInMethod text tree method name item.1 →
        (item.2.caller = some name ↔
          IsMethod text tree method name ∨ IsNearest text tree (Address.Encloses · method) name) ∧
        (¬IsMethod text tree method name →
          IsCaller text tree (Address.Encloses · method) item.2.caller) := by
  obtain ⟨listing, listed, callers⟩ := ofTree_areCalls text program
  refine ⟨listing, listed, fun item member method name inside => ?_⟩
  have decided := callers item member
  by_cases isMethod : IsMethod text tree method name
  · have called := (decided.some_iff name).mpr (inside.isNearest isMethod)
    exact ⟨iff_of_true called (.inl isMethod), fun nested => absurd isMethod nested⟩
  · have outside := (inside.isCaller_iff isMethod).mp decided
    rw [or_iff_right isMethod]
    exact ⟨outside.some_iff name, fun _ => outside⟩

/-- A method of a class at the top level. -/
theorem caller_in_class_iff_top :
    let source := "class C { m() { f(); } }"
    let text : Wording := fun node => node.span.textIn source.toList.toArray
    ∃ tree, Script.parse .javascript source = .ok tree ∧ IsProgram tree ∧ ∃ listing,
      IsListing text tree (IsSearched text tree) (ofTree text tree).calls listing ∧
      ∃ item ∈ listing, ∃ method, IsInMethod text tree method "C.m" item.1 ∧
        IsMethod text tree method "C.m" ∧ item.2.caller = some "C.m" := by
  intro source text
  have found : (Script.parse .javascript source).toOption.map (fun tree =>
      isClassMethodAt text tree [0] 1 0 "C.m" &&
        (isCallBelow tree [0, 1, 0] [0, 1, 0, 2, 0, 0] &&
          tree.children[0]?.any (·.kind == .classDeclaration))) = some true := by decide +kernel
  obtain ⟨tree, read, program, facts⟩ := exists_isProgram found
  obtain ⟨inClass, facts⟩ := Bool.and_eq_true_iff.mp facts
  obtain ⟨call, first⟩ := Bool.and_eq_true_iff.mp facts
  obtain ⟨owner, listed, kind⟩ := (Option.any_eq_true _ _).mp first
  have sort : owner.kind = .classDeclaration := beq_iff_eq.mp kind
  have top : IsTopLevel tree [0] owner := .statement listed (by simp [sort]) (by simp [sort])
  have isMethod := top.isMethod inClass
  obtain ⟨node, here, named, inside⟩ := isInMethod_of_isCallBelow isMethod.isClassMethod call
  obtain ⟨listing, calls, callers⟩ := caller_in_class_iff text program
  have searched : IsSearched text tree [0, 1, 0, 2, 0, 0] :=
    top.isSearched_method inClass inside.around.1
  obtain ⟨found, _, member⟩ := calls.exists_call here named searched
  exact ⟨tree, read, program, listing, calls, _, member, _, inside, isMethod,
    (callers _ member _ _ inside).1.mpr (.inl isMethod)⟩

/-- In a class that a function declares, what a method calls belongs to that function. -/
theorem caller_in_class_of_function :
    let source := "function outer() { class C { m() { f(); } } }"
    let text : Wording := fun node => node.span.textIn source.toList.toArray
    ∃ tree, Script.parse .typescript source = .ok tree ∧ IsProgram tree ∧ ∃ listing,
      IsListing text tree (IsSearched text tree) (ofTree text tree).calls listing ∧
      ∃ item ∈ listing, ∃ method, IsInMethod text tree method "C.m" item.1 ∧
        item.2.caller = some "outer" := by
  intro source text
  have found : (Script.parse .typescript source).toOption.map (fun tree =>
      isClassMethodAt text tree [0, 2, 0] 1 0 "C.m" &&
        (isCallBelow tree [0, 2, 0, 1, 0] [0, 2, 0, 1, 0, 2, 0, 0] &&
          (tree.children[0]?.any (·.kind == .functionDeclaration) &&
            (ofTree text tree).calls.all (·.caller == some "outer")))) = some true := by
    decide +kernel
  obtain ⟨tree, read, program, facts⟩ := exists_isProgram found
  obtain ⟨inClass, facts⟩ := Bool.and_eq_true_iff.mp facts
  obtain ⟨call, facts⟩ := Bool.and_eq_true_iff.mp facts
  obtain ⟨first, callers⟩ := Bool.and_eq_true_iff.mp facts
  obtain ⟨outer, listed, kind⟩ := (Option.any_eq_true _ _).mp first
  have sort : outer.kind = .functionDeclaration := beq_iff_eq.mp kind
  have top : IsTopLevel tree [0] outer := .statement listed (by simp [sort]) (by simp [sort])
  obtain ⟨node, here, named, inside⟩ :=
    isInMethod_of_isCallBelow (isClassMethod_of_isClassMethodAt inClass) call
  have searched : IsSearched text tree [0, 2, 0, 1, 0, 2, 0, 0] :=
    ⟨[0], outer, [], top, .function (by rw [sort]; rfl), by decide⟩
  obtain ⟨listing, calls, _⟩ := ofTree_areCalls text program
  obtain ⟨found, among, member⟩ := calls.exists_call here named searched
  exact ⟨tree, read, program, listing, calls, _, member, _, inside,
    beq_iff_eq.mp (List.all_eq_true.mp callers found among)⟩

end CodeAtlas.Outline
