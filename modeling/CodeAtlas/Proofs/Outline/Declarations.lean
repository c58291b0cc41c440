import CodeAtlas.Proofs.List.Made
import CodeAtlas.Proofs.Outline.Listing

namespace CodeAtlas.Outline

open Script

variable {text : Wording} {tree node : Node} {start place : Address} {name : String}

theorem append_calls (first second : Outline) : (first ++ second).calls = first.calls ++ second.calls :=
  rfl

theorem join_calls (outlines : List Outline) : (join outlines).calls = outlines.flatMap calls := rfl

/-- The address is in a part of the statement at `start` that is searched. -/
def IsInRegion (text : Wording) (node : Node) (start place : Address) : Prop :=
  ∃ region, IsRegion text node region ∧ start ++ region <+: place

theorem isInRegion_whole (whole : IsRegion text node []) :
    IsInRegion text node start place ↔ start <+: place := by
  constructor
  · rintro ⟨region, _, within⟩
    exact (List.prefix_append start region).trans within
  · intro within
    exact ⟨[], whole, by rwa [List.append_nil]⟩

theorem isInRegion_class (sort : sortOf node.kind = .classDecl) (named : name? text node = some name) :
    IsInRegion text node start place ↔
      (∃ step, heritagePlace? node = some step ∧ start ++ [step] <+: place) ∨
        ∃ step, node.place? .body = some step ∧ start ++ [step] <+: place := by
  constructor
  · rintro ⟨region, searched, within⟩
    cases searched with
    | function other => cases sort.symm.trans other
    | namelessClass _ nameless => cases nameless.symm.trans named
    | heritage _ _ found => exact .inl ⟨_, found, within⟩
    | body _ _ found => exact .inr ⟨_, found, within⟩
    | initializer other => cases sort.symm.trans other
    | other other => cases sort.symm.trans other
  · rintro (⟨step, found, within⟩ | ⟨step, found, within⟩)
    · exact ⟨_, .heritage sort named found, within⟩
    · exact ⟨_, .body sort named found, within⟩

theorem isInRegion_variables (sort : sortOf node.kind = .variables) :
    IsInRegion text node start place ↔
      ∃ step declarator inner, node.children[step]? = some declarator ∧
        declarator.kind = .variableDeclarator ∧ declarator.place? .value = some inner ∧
        start ++ [step] ++ [inner] <+: place := by
  constructor
  · rintro ⟨region, searched, within⟩
    cases searched with
    | @initializer step _ _ _ listed kind found =>
      rw [← List.singleton_append, ← List.append_assoc] at within
      exact ⟨_, _, _, listed, kind, found, within⟩
    | function other => cases sort.symm.trans other
    | namelessClass other => cases sort.symm.trans other
    | heritage other => cases sort.symm.trans other
    | body other => cases sort.symm.trans other
    | other other => cases sort.symm.trans other
  · rintro ⟨step, declarator, inner, listed, kind, found, within⟩
    rw [List.append_assoc] at within
    exact ⟨_, .initializer sort listed kind found, within⟩

theorem not_isInRegion_type (sort : sortOf node.kind = .type) :
    ¬IsInRegion text node start place := by
  rintro ⟨region, searched, _⟩
  cases searched with
  | function other => cases sort.symm.trans other
  | namelessClass other => cases sort.symm.trans other
  | heritage other => cases sort.symm.trans other
  | body other => cases sort.symm.trans other
  | initializer other => cases sort.symm.trans other
  | other other => cases sort.symm.trans other

namespace IsTopLevel

/-- The methods in a top-level statement stand two steps below it. -/
theorem exists_of_isMethod (top : IsTopLevel tree start node) (within : start <+: place)
    (method : IsMethod text tree place name) : ∃ step inner, place = start ++ [step, inner] := by
  obtain ⟨_, _, step, inner, _, _, _, _, same, _⟩ := method.of_isTopLevel top within
  exact ⟨step, inner, same⟩

theorem eq_of_isMethod (top : IsTopLevel tree start node) {step inner : Nat}
    (within : start ++ [step] ++ [inner] <+: place) (method : IsMethod text tree place name) :
    place = start ++ [step] ++ [inner] := by
  have above : start <+: place := by
    rw [List.append_assoc] at within
    exact (List.prefix_append start _).trans within
  obtain ⟨_, _, rfl⟩ := top.exists_of_isMethod above method
  exact (within.eq_of_length (by simp)).symm

/-- A top-level statement that is no class with a name has no methods. -/
theorem not_isMethod (top : IsTopLevel tree start node)
    (unowned : sortOf node.kind = .classDecl → name? text node = none)
    (within : start <+: place) (name : String) : ¬IsMethod text tree place name := by
  intro method
  obtain ⟨sort, owner, _, _, _, _, named, _⟩ := method.of_isTopLevel top within
  cases (unowned sort).symm.trans named

theorem not_isMethod_self (top : IsTopLevel tree start node) (name : String) :
    ¬IsMethod text tree start name := by
  intro method
  obtain ⟨_, _, same⟩ := top.exists_of_isMethod (List.prefix_refl start) method
  exact List.cons_ne_nil _ _ (List.self_eq_append_right.mp same)

theorem not_isMethod_child (top : IsTopLevel tree start node) (step : Nat) (name : String) :
    ¬IsMethod text tree (start ++ [step]) name := by
  intro method
  obtain ⟨_, _, same⟩ := top.exists_of_isMethod (List.prefix_append start [step]) method
  have length := congrArg List.length same
  simp at length

/-- A top-level statement that is searched as a whole. -/
theorem areCalls_whole (top : IsTopLevel tree start node) (text : Wording) (program : IsProgram tree)
    (unowned : sortOf node.kind = .classDecl → name? text node = none)
    (whole : IsRegion text node []) :
    AreCalls text tree (IsInRegion text node start) (callsIn text none node) := by
  have found := isSearchable node start none top.at?_eq
    (fun place name within => top.not_isMethod unowned within name) (top.isCaller program)
  exact found.congr fun place _ => (isInRegion_whole whole).symm

/-- The children of a top-level statement that is no function have no caller. -/
theorem isCaller_child (top : IsTopLevel tree start node) (program : IsProgram tree)
    (plain : callerName? text node = none) (step : Nat) :
    IsCaller text tree (Address.Encloses · (start ++ [step])) none := by
  have entered : IsCaller text tree (· <+: start) ((callerName? text node).or none) :=
    (top.isCaller program).enter top.at?_eq top.not_isMethod_self
  rw [plain] at entered
  exact (isCaller_snoc step).mpr entered

end IsTopLevel

theorem callerName?_of_sort (plain : sortOf node.kind ≠ .function)
    (known : sortOf node.kind ≠ .other) : callerName? text node = none := by
  rw [Option.eq_none_iff_forall_not_mem]
  intro name named
  rcases callerName?_eq_some_iff.mp named with ⟨sort, _⟩ | ⟨kind, _⟩
  · exact plain sort
  · exact known (by rw [kind]; rfl)

section Class

variable (program : IsProgram tree) (top : IsTopLevel tree start node)
  (sort : sortOf node.kind = .classDecl)

include sort in
theorem callerName?_class : callerName? text node = none :=
  callerName?_of_sort (by rw [sort]; decide) (by rw [sort]; decide)

include program top sort

theorem heritage_areCalls (text : Wording) :
    AreCalls text tree (fun place => ∃ step, heritagePlace? node = some step ∧
        start ++ [step] <+: place)
      (((node.children.find? (·.kind == .classHeritage)).map (callsIn text none)).getD []) := by
  refine AreCalls.chosen fun step child found listed => ?_
  refine isSearchable child (start ++ [step]) none (Node.at?_child top.at?_eq listed) ?_
    (top.isCaller_child program (callerName?_class sort) step)
  intro place name within method
  obtain ⟨_, _, body, _, _, _, _, bodied, rfl, member, _⟩ :=
    method.of_isTopLevel top ((List.prefix_append start [step]).trans within)
  obtain ⟨_, listed', _⟩ := Node.exists_child_of_at? member
  have before := ((program.classes top sort) body _ bodied listed').2 step found
  have same : step = body := Address.step_unique within (by simp)
  omega

section Body

variable {step inner : Nat} {body member : Node} (bodied : node.place? .body = some step)
  (bodyListed : node.children[step]? = some body)

include bodied bodyListed

theorem isCaller_member (inner : Nat) :
    IsCaller text tree (Address.Encloses · (start ++ [step] ++ [inner])) none := by
  have here : tree.at? (start ++ [step]) = some body := Node.at?_child top.at?_eq bodyListed
  have entered : IsCaller text tree (· <+: start ++ [step]) ((callerName? text body).or none) :=
    (top.isCaller_child program (callerName?_class sort) step).enter here
      (top.not_isMethod_child step)
  have kind := ((program.classes top sort) step body bodied bodyListed).1
  have plain : callerName? text body = none := by
    unfold callerName?
    rw [kind]
  rw [plain] at entered
  exact (isCaller_snoc inner).mpr entered

omit program in
/-- A method with a name is the caller of what is in it. -/
theorem method_areCalls {own : String} (named : name? text node = some name)
    (listed : body.children[inner]? = some member) (kind : member.kind = .methodDefinition)
    (owned : name? text member = some own) :
    AreCalls text tree (start ++ [step] ++ [inner] <+: ·)
      (callsIn text (some (name ++ "." ++ own)) member) := by
  have here : tree.at? (start ++ [step] ++ [inner]) = some member :=
    Node.at?_child (Node.at?_child top.at?_eq bodyListed) listed
  have context : IsContext text tree (start ++ [step] ++ [inner]) (name ++ "." ++ own) := by
    rw [List.append_assoc] at here ⊢
    have found := (Node.at?_of_at? top.at?_eq _).symm.trans here
    exact .method (.member top sort named bodied found kind owned)
  have below : AreCalls text tree ((start ++ [step] ++ [inner]).Encloses ·)
      (callsBelow text (some (name ++ "." ++ own)) member.children) :=
    callsBelow_areCalls here
      (fun place other around method => around.2 (top.eq_of_isMethod around.1 method).symm)
      context.isCaller
  have plain : ownCall text (some (name ++ "." ++ own)) member = [] := by simp [ownCall, kind]
  rw [callsIn_of_no_callerName? (callerName?_of_methodDefinition kind), plain, List.nil_append]
  refine below.congr fun place call => ?_
  rw [Address.prefix_iff, or_iff_right]
  rintro rfl
  obtain ⟨kind', _⟩ := (Node.callsAt_iff here).mp call
  cases kind.symm.trans kind'

theorem ofMember_areCalls (named : name? text node = some name)
    (listed : body.children[inner]? = some member) (exported : Bool) :
    AreCalls text tree (start ++ [step] ++ [inner] <+: ·)
      (ofMember text name exported member).calls := by
  unfold ofMember
  split
  · next own method =>
    obtain ⟨kind, owned⟩ : member.kind = .methodDefinition ∧ name? text member = some own := by
      split at method
      · next kind => exact ⟨beq_iff_eq.mp kind, method⟩
      · cases method
    exact method_areCalls top sort bodied bodyListed named listed kind owned
  · next unnamed =>
    have here : tree.at? (start ++ [step] ++ [inner]) = some member :=
      Node.at?_child (Node.at?_child top.at?_eq bodyListed) listed
    refine isSearchable member _ none here ?_
      (isCaller_member program top sort bodied bodyListed inner)
    intro place other within method
    obtain rfl := top.eq_of_isMethod within method
    obtain ⟨kind, own, owned⟩ := method.of_at? here
    rw [if_pos (beq_iff_eq.mpr kind), owned] at unnamed
    cases unnamed

/-- The body of a class is no call itself, so its members have all that it has. -/
theorem body_areCalls (named : name? text node = some name) (exported : Bool) :
    AreCalls text tree (start ++ [step] <+: ·)
      (body.children.flatMap fun member => (ofMember text name exported member).calls) := by
  have here : tree.at? (start ++ [step]) = some body := Node.at?_child top.at?_eq bodyListed
  have members := AreCalls.below here fun inner member listed =>
    ofMember_areCalls program top sort bodied bodyListed named listed exported
  refine members.congr fun place call => ?_
  rw [Address.prefix_iff, or_iff_right]
  rintro rfl
  obtain ⟨kind, _⟩ := (Node.callsAt_iff here).mp call
  cases ((program.classes top sort) step body bodied bodyListed).1.symm.trans kind

end Body

theorem ofClass_areCalls (exported : Bool) :
    AreCalls text tree (IsInRegion text node start) (ofClass text exported node).calls := by
  unfold ofClass
  split
  · next unnamed => exact top.areCalls_whole text program (fun _ => unnamed) (.namelessClass sort unnamed)
  · next name named =>
    have extended := heritage_areCalls program top sort text
    have members : AreCalls text tree
        (fun place => ∃ step, node.place? .body = some step ∧ start ++ [step] <+: place)
        (((node.child? .body).map fun body => body.children.flatMap fun member =>
          (ofMember text name exported member).calls).getD []) :=
      AreCalls.chosen fun step body bodied listed =>
        body_areCalls program top sort bodied listed named exported
    have before : ∀ place other,
        (∃ step, heritagePlace? node = some step ∧ start ++ [step] <+: place) →
        (∃ step, node.place? .body = some step ∧ start ++ [step] <+: other) → place < other := by
      rintro place other ⟨step, found, within⟩ ⟨later, bodied, within'⟩
      obtain ⟨body, listed⟩ := Node.exists_of_place? bodied
      exact Address.lt_of_lt (((program.classes top sort) later body bodied listed).2 step found)
        within within'
    have both := (extended.append members before).congr fun place _ =>
      (isInRegion_class sort named).symm
    have calls : (((node.child? .body).map Node.children).getD []).flatMap
          (fun member => (ofMember text name exported member).calls) =
        ((node.child? .body).map fun body => body.children.flatMap fun member =>
          (ofMember text name exported member).calls).getD [] := by
      cases node.child? .body <;> rfl
    rw [← calls] at both
    rwa [append_calls, join_calls, List.flatMap_map]

end Class

theorem ofVariable_calls (kind : node.kind = .variableDeclarator) (exported : Bool) :
    (ofVariable text exported node).calls =
      ((node.child? .value).map (callsIn text (callerName? text node))).getD [] := by
  unfold ofVariable callerName?
  rw [kind]
  dsimp only
  cases variableName? text node with
  | none => simp [ofCalls]
  | some name => rfl

theorem ofVariables_calls (children : List Node) (exported : Bool) :
    (join ((children.filter (·.kind == .variableDeclarator)).map (ofVariable text exported))).calls =
      children.flatMap fun child =>
        if child.kind == .variableDeclarator then (ofVariable text exported child).calls else [] := by
  rw [join_calls, List.flatMap_map, flatMap_filter]

section Variables

variable (program : IsProgram tree) (top : IsTopLevel tree start node)
  (sort : sortOf node.kind = .variables)

include program top sort

/-- The value of a variable has the variable as its caller if it is a function. -/
theorem ofVariable_areCalls {step : Nat} {declarator : Node}
    (listed : node.children[step]? = some declarator)
    (kind : declarator.kind = .variableDeclarator) (exported : Bool) :
    AreCalls text tree (fun place => ∃ inner, declarator.place? .value = some inner ∧
        start ++ [step] ++ [inner] <+: place)
      (ofVariable text exported declarator).calls := by
  have plain : callerName? text node = none :=
    callerName?_of_sort (by rw [sort]; decide) (by rw [sort]; decide)
  have outside : ∀ {place} name, start <+: place → ¬IsMethod text tree place name :=
    fun name within => top.not_isMethod (fun other => by cases sort.symm.trans other) within name
  have here : tree.at? (start ++ [step]) = some declarator := Node.at?_child top.at?_eq listed
  have entered : IsCaller text tree (· <+: start ++ [step]) ((callerName? text declarator).or none) :=
    (top.isCaller_child program plain step).enter here (top.not_isMethod_child step)
  rw [Option.or_none] at entered
  rw [ofVariable_calls kind]
  refine AreCalls.chosen fun inner value found valued => ?_
  refine isSearchable value _ _ (Node.at?_child here valued) ?_ ((isCaller_snoc inner).mpr entered)
  intro place name within
  refine outside name ?_
  exact (List.prefix_append _ _).trans ((List.prefix_append _ _).trans within)

omit program top in
/-- A part that is searched below a child is in the value of a variable, and the child declares it. -/
theorem isInRegion_child {step : Nat} (within : start ++ [step] <+: place) :
    IsInRegion text node start place ↔
      ∃ declarator inner, node.children[step]? = some declarator ∧
        declarator.kind = .variableDeclarator ∧ declarator.place? .value = some inner ∧
        start ++ [step] ++ [inner] <+: place := by
  rw [isInRegion_variables sort]
  refine ⟨?_, fun found => ⟨step, found⟩⟩
  rintro ⟨other, declarator, inner, listed, kind, valued, within'⟩
  obtain rfl := Address.step_unique ((List.prefix_append _ [inner]).trans within') within
  exact ⟨declarator, inner, listed, kind, valued, within'⟩

/-- The variables that are declared together, one after the other. -/
theorem ofVariables_areCalls (exported : Bool) :
    AreCalls text tree (IsInRegion text node start)
      (join ((node.children.filter (·.kind == .variableDeclarator)).map
        (ofVariable text exported))).calls := by
  have each : AreCalls text tree
      (fun place => IsInRegion text node start place ∧ ∃ step, start ++ [step] <+: place)
      (node.children.flatMap fun child =>
        if child.kind == .variableDeclarator then (ofVariable text exported child).calls else []) := by
    refine AreCalls.children top.at?_eq fun step child listed => ?_
    split
    · next kind =>
      refine (ofVariable_areCalls program top sort listed (beq_iff_eq.mp kind) exported).congr
        fun place _ => ?_
      constructor
      · rintro ⟨inner, valued, within⟩
        have above := (List.prefix_append (start ++ [step]) [inner]).trans within
        exact ⟨(isInRegion_child sort above).mpr
          ⟨child, inner, listed, beq_iff_eq.mp kind, valued, within⟩, above⟩
      · rintro ⟨inside, above⟩
        obtain ⟨declarator, inner, listed', _, valued, within⟩ := (isInRegion_child sort above).mp inside
        obtain rfl := Option.some.inj (listed.symm.trans listed')
        exact ⟨inner, valued, within⟩
    · next kind =>
      refine .nil ?_
      rintro place _ ⟨inside, above⟩
      obtain ⟨declarator, _, listed', kind', _⟩ := (isInRegion_child sort above).mp inside
      obtain rfl := Option.some.inj (listed.symm.trans listed')
      exact kind (beq_iff_eq.mpr kind')
  rw [ofVariables_calls]
  refine each.congr fun place _ => and_iff_left_of_imp fun inside => ?_
  obtain ⟨step, _, inner, _, _, _, within⟩ := (isInRegion_variables sort).mp inside
  exact ⟨step, (List.prefix_append _ [inner]).trans within⟩

end Variables

/-- A function has its calls under its own name, if it has one, from wherever it is searched. -/
theorem callsIn_function (sort : sortOf node.kind = .function) (named : name? text node = some name) :
    callsIn text (some name) node = callsIn text none node := by
  have caller : callerName? text node = some name := callerName?_eq_some_iff.mpr (.inl ⟨sort, named⟩)
  rw [callsIn_of_callerName? caller, callsIn_of_callerName? caller]

/-- What a declaration is that declares its own name. -/
def namedKind? : Kind → Option SymbolKind
  | .functionDeclaration => some .function
  | .generatorFunctionDeclaration => some .function
  | .classDeclaration => some .classDecl
  | .abstractClassDeclaration => some .classDecl
  | .interfaceDeclaration => some .interface
  | .typeAliasDeclaration => some .typeAlias
  | _ => none

/-- The outline of a declaration is told by its sort. -/
theorem ofDeclaration_cases {exported : Bool} {motive : Outline → Prop}
    (function : sortOf node.kind = .function → motive (match name? text node with
      | some name => ⟨[declared name .function exported node], [], callsIn text (some name) node⟩
      | none => ofCalls (callsIn text none node)))
    (classDecl : sortOf node.kind = .classDecl → motive (ofClass text exported node))
    (bindings : sortOf node.kind = .variables →
      motive (join ((node.children.filter (·.kind == .variableDeclarator)).map
        (ofVariable text exported))))
    (type : sortOf node.kind = .type → ∀ kind : SymbolKind, namedKind? node.kind = some kind →
      motive ⟨((name? text node).map fun name => declared name kind exported node).toList, [], []⟩)
    (other : sortOf node.kind = .other → motive (ofCalls (callsIn text none node))) :
    motive (ofDeclaration text exported node) := by
  unfold ofDeclaration
  extract_lets ofFunction ofType
  split
  case h_1 kind => exact function (by rw [kind]; rfl)
  case h_2 kind => exact function (by rw [kind]; rfl)
  case h_3 kind => exact classDecl (by rw [kind]; rfl)
  case h_4 kind => exact classDecl (by rw [kind]; rfl)
  case h_5 kind => exact type (by rw [kind]; rfl) .interface (by rw [kind]; rfl)
  case h_6 kind => exact type (by rw [kind]; rfl) .typeAlias (by rw [kind]; rfl)
  case h_7 kind => exact bindings (by rw [kind]; rfl)
  case h_8 kind => exact bindings (by rw [kind]; rfl)
  case h_9 =>
    refine other ?_
    unfold sortOf
    split <;> first | rfl | contradiction

/-- What a statement declares decides which parts of it are searched. -/
theorem ofDeclaration_areCalls (program : IsProgram tree) (top : IsTopLevel tree start node)
    (exported : Bool) :
    AreCalls text tree (IsInRegion text node start) (ofDeclaration text exported node).calls := by
  refine ofDeclaration_cases (motive := fun outline =>
    AreCalls text tree (IsInRegion text node start) outline.calls) ?_ ?_ ?_ ?_ ?_
  · intro sort
    have whole := top.areCalls_whole text program
      (fun other => by cases sort.symm.trans other) (.function sort)
    split
    · next name named => rwa [← callsIn_function sort named] at whole
    · exact whole
  · exact fun sort => ofClass_areCalls program top sort exported
  · exact fun sort => ofVariables_areCalls program top sort exported
  · exact fun sort _ _ => .nil fun _ _ => not_isInRegion_type sort
  · exact fun sort => top.areCalls_whole text program
      (fun other => by cases sort.symm.trans other) (.other sort)

end CodeAtlas.Outline
