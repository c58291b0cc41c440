import CodeAtlas.Proofs.Outline.Regions

namespace CodeAtlas.Outline

open Script

variable (text : Wording) {tree node : Node} {start place : Address} {name : String}

/-- The node at an address is a method with a name, in the body of a top-level class with a name. -/
inductive IsMethod (tree : Node) : Address → String → Prop
  | member {start : Address} {owner member : Node} {step inner : Nat} {ownerName name : String} :
      IsTopLevel tree start owner → sortOf owner.kind = .classDecl →
      name? text owner = some ownerName → owner.place? .body = some step →
      owner.at? [step, inner] = some member → member.kind = .methodDefinition →
      name? text member = some name →
      IsMethod tree (start ++ [step, inner]) (ownerName ++ "." ++ name)

/-- The node at an address is a function whose name the calls in it belong to. -/
inductive IsContext (tree : Node) : Address → String → Prop
  | function {place : Address} {node : Node} {name : String} :
      tree.at? place = some node → sortOf node.kind = .function →
      name? text node = some name → IsContext tree place name
  | bound {place : Address} {node declared value : Node} :
      tree.at? place = some node → node.kind = .variableDeclarator →
      node.child? .name = some declared → declared.kind = .identifier →
      node.child? .value = some value → isFunctionValue value.kind = true →
      IsContext tree place (text declared)
  | method {place : Address} {name : String} : IsMethod text tree place name → IsContext tree place name

/-- The name of the innermost of some contexts. -/
def IsNearest (tree : Node) (around : Address → Prop) (name : String) : Prop :=
  ∃ outer, around outer ∧ IsContext text tree outer name ∧
    ∀ other other', around other → IsContext text tree other other' → other <+: outer

/-- The name of the innermost of some contexts, if there is one. -/
def IsCaller (tree : Node) (around : Address → Prop) : Option String → Prop
  | some name => IsNearest text tree around name
  | none => ∀ outer name, around outer → ¬IsContext text tree outer name

variable {text}

theorem variableName?_eq_some_iff :
    variableName? text node = some name ↔
      ∃ declared, node.child? .name = some declared ∧ declared.kind = .identifier ∧
        text declared = name := by
  simp [variableName?, Option.filter_eq_some_iff, and_assoc]

theorem sortOf_eq_function_iff {kind : Kind} :
    sortOf kind = .function ↔
      kind = .functionDeclaration ∨ kind = .generatorFunctionDeclaration := by
  cases kind <;> simp [sortOf]

theorem callerName?_eq_some_iff :
    callerName? text node = some name ↔
      sortOf node.kind = .function ∧ name? text node = some name ∨
      node.kind = .variableDeclarator ∧ (node.child? .value).any (isFunctionValue ·.kind) = true ∧
        variableName? text node = some name := by
  unfold callerName?
  rw [sortOf_eq_function_iff]
  split <;> simp_all

theorem isContext_iff (here : tree.at? place = some node) :
    IsContext text tree place name ↔
      callerName? text node = some name ∨ IsMethod text tree place name := by
  rw [callerName?_eq_some_iff]
  constructor
  · rintro (⟨here', kind, named⟩ | ⟨here', kind, declares, word, valued, callable⟩ | method)
    · obtain rfl := Option.some.inj (here.symm.trans here')
      exact .inl (.inl ⟨kind, named⟩)
    · obtain rfl := Option.some.inj (here.symm.trans here')
      refine .inl (.inr ⟨kind, ?_, variableName?_eq_some_iff.mpr ⟨_, declares, word, rfl⟩⟩)
      rw [valued]
      exact callable
    · exact .inr method
  · rintro ((⟨kind, named⟩ | ⟨kind, callable, named⟩) | method)
    · exact .function here kind named
    · obtain ⟨declared, declares, word, rfl⟩ := variableName?_eq_some_iff.mp named
      cases valued : node.child? .value with
      | none =>
        rw [valued] at callable
        cases callable
      | some value =>
        rw [valued] at callable
        exact .bound here kind declares word valued callable
    · exact .method method

theorem IsContext.exists_node (context : IsContext text tree place name) :
    ∃ node, tree.at? place = some node := by
  cases context with
  | function here => exact ⟨_, here⟩
  | bound here => exact ⟨_, here⟩
  | method method =>
    cases method with
    | member top _ _ _ listed => exact ⟨_, (Node.at?_of_at? top.at?_eq _).trans listed⟩

/-- A method in a top-level statement is in the class that the statement declares. -/
theorem IsMethod.of_isTopLevel (method : IsMethod text tree place name)
    (top : IsTopLevel tree start node) (within : start <+: place) :
    sortOf node.kind = .classDecl ∧
      ∃ owner step inner member own, name? text node = some owner ∧
        node.place? .body = some step ∧ place = start ++ [step, inner] ∧
        node.at? [step, inner] = some member ∧ member.kind = .methodDefinition ∧
        name? text member = some own ∧ name = owner ++ "." ++ own := by
  cases method with
  | member top' kind named bodied listed declares owned =>
    obtain ⟨rfl, rfl⟩ := top.unique top' within (List.prefix_append _ _)
    exact ⟨kind, _, _, _, _, _, named, bodied, rfl, listed, declares, owned, rfl⟩

theorem IsMethod.unique {other : String} (method : IsMethod text tree place name)
    (method' : IsMethod text tree place other) : name = other := by
  cases method' with
  | member top kind named bodied listed declares owned =>
    obtain ⟨_, _, _, _, _, _, named', bodied', same, listed', _, owned', rfl⟩ :=
      method.of_isTopLevel top (List.prefix_append _ _)
    obtain ⟨rfl, rfl⟩ : _ = _ ∧ _ = _ := by simpa using same
    obtain rfl := Option.some.inj (listed.symm.trans listed')
    obtain rfl := Option.some.inj (named.symm.trans named')
    obtain rfl := Option.some.inj (owned.symm.trans owned')
    rfl

theorem IsMethod.of_at? (method : IsMethod text tree place name)
    (here : tree.at? place = some node) :
    node.kind = .methodDefinition ∧ ∃ own, name? text node = some own := by
  cases method with
  | member top _ _ _ listed declares owned =>
    have same := (Node.at?_of_at? top.at?_eq _).trans listed
    obtain rfl := Option.some.inj (here.symm.trans same)
    exact ⟨declares, _, owned⟩

theorem callerName?_of_methodDefinition (kind : node.kind = .methodDefinition) :
    callerName? text node = none := by
  unfold callerName?
  rw [kind]

theorem IsContext.unique {other : String} (context : IsContext text tree place name)
    (context' : IsContext text tree place other) : name = other := by
  obtain ⟨node, here⟩ := context.exists_node
  rcases (isContext_iff here).mp context with named | method
  · rcases (isContext_iff here).mp context' with named' | method'
    · exact Option.some.inj (named.symm.trans named')
    · cases (callerName?_of_methodDefinition (method'.of_at? here).1).symm.trans named
  · rcases (isContext_iff here).mp context' with named' | method'
    · cases (callerName?_of_methodDefinition (method.of_at? here).1).symm.trans named'
    · exact method.unique method'

section IsCaller

variable {around : Address → Prop} {caller : Option String}

theorem IsCaller.some_iff (decided : IsCaller text tree around caller) (name : String) :
    caller = some name ↔ IsNearest text tree around name := by
  constructor
  · rintro rfl
    exact decided
  · rintro ⟨outer, inside, context, nearest⟩
    cases caller with
    | none => exact absurd context (decided outer name inside)
    | some found =>
      obtain ⟨outer', inside', context', nearest'⟩ := decided
      obtain rfl := Address.prefix_antisymm (nearest' _ _ inside context) (nearest _ _ inside' context')
      rw [context'.unique context]

theorem IsCaller.none_iff (decided : IsCaller text tree around caller) :
    caller = none ↔ ∀ outer name, around outer → ¬IsContext text tree outer name := by
  constructor
  · rintro rfl
    exact decided
  · intro nothing
    cases caller with
    | none => rfl
    | some found =>
      obtain ⟨outer, inside, context, _⟩ := decided
      exact absurd context (nothing outer found inside)

theorem isCaller_snoc (step : Nat) :
    IsCaller text tree (Address.Encloses · (place ++ [step])) caller ↔
      IsCaller text tree (· <+: place) caller := by
  have same : (Address.Encloses · (place ++ [step])) = (· <+: place) :=
    funext fun outer => propext (Address.encloses_snoc outer place step)
  rw [same]

/-- A context takes over for what is below it. -/
theorem IsContext.isCaller (context : IsContext text tree place name) :
    IsCaller text tree (· <+: place) (some name) :=
  ⟨place, List.prefix_refl place, context, fun _ _ within _ => within⟩

/-- Only the contexts among the addresses matter. -/
theorem isCaller_congr {around' : Address → Prop}
    (same : ∀ outer name, IsContext text tree outer name → (around outer ↔ around' outer)) :
    IsCaller text tree around caller ↔ IsCaller text tree around' caller := by
  cases caller with
  | none =>
    refine forall₂_congr fun outer name => ?_
    constructor
    · exact fun nothing inside context => nothing ((same outer name context).mpr inside) context
    · exact fun nothing inside context => nothing ((same outer name context).mp inside) context
  | some found =>
    refine exists_congr fun outer => ?_
    constructor
    · rintro ⟨inside, context, nearest⟩
      exact ⟨(same outer found context).mp inside, context, fun other name inside' context' =>
        nearest other name ((same other name context').mpr inside') context'⟩
    · rintro ⟨inside, context, nearest⟩
      exact ⟨(same outer found context).mpr inside, context, fun other name inside' context' =>
        nearest other name ((same other name context').mp inside') context'⟩

/-- A node that is no context leaves the caller as it is. -/
theorem isCaller_below_iff (plain : ∀ name, ¬IsContext text tree place name) :
    IsCaller text tree (· <+: place) caller ↔
      IsCaller text tree (Address.Encloses · place) caller := by
  refine isCaller_congr fun outer name context => ?_
  constructor
  · exact fun within => ⟨within, fun same => plain name (same ▸ context)⟩
  · exact fun around => around.1

/-- Where there is no method, the name that a node declares for itself decides. -/
theorem IsCaller.enter (here : tree.at? place = some node)
    (outside : ∀ name, ¬IsMethod text tree place name)
    (decided : IsCaller text tree (Address.Encloses · place) caller) :
    IsCaller text tree (· <+: place) ((callerName? text node).or caller) := by
  have contexts (name : String) :
      IsContext text tree place name ↔ callerName? text node = some name := by
    rw [isContext_iff here]
    exact or_iff_left (outside name)
  cases named : callerName? text node with
  | some name => exact ((contexts name).mpr named).isCaller
  | none =>
    refine (isCaller_below_iff fun name context => ?_).mpr decided
    cases named.symm.trans ((contexts name).mp context)

end IsCaller

/-- What is around a top-level statement is no function. -/
theorem IsTopLevel.isCaller (program : IsProgram tree) (top : IsTopLevel tree start node) :
    IsCaller text tree (Address.Encloses · start) none := by
  intro outer name around context
  obtain ⟨above, here⟩ := context.exists_node
  have kinds : above.kind = .program ∨ above.kind = .exportStatement := by
    rcases top.eq_of_encloses around with rfl | ⟨step, statement, rfl, listed, exports⟩
    · obtain rfl := Option.some.inj here
      exact .inl program.kind
    · have found : tree.at? [step] = some statement := by simp [Node.at?, listed]
      obtain rfl := Option.some.inj (found.symm.trans here)
      exact .inr exports
  rcases (isContext_iff here).mp context with named | method
  · unfold callerName? at named
    rcases kinds with kind | kind <;> rw [kind] at named <;> cases named
  · have kind := (method.of_at? here).1
    rcases kinds with kind' | kind' <;> cases kind.symm.trans kind'

end CodeAtlas.Outline
