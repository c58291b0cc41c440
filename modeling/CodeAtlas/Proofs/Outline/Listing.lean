import CodeAtlas.Outline.Calls
import CodeAtlas.Proofs.Outline.Callers

namespace CodeAtlas

open Outline

namespace Script.Node

/-- The node calls something under a name. -/
def IsNamedCall (node : Node) : Prop :=
  node.kind = .callExpression ∧ ∃ callee, node.child? .callee = some callee ∧
    (callee.kind = .identifier ∨
      callee.kind = .memberExpression ∧ ∃ property, callee.child? .property = some property)

/-- The node at an address calls something under a name. -/
def CallsAt (tree : Node) (place : Address) : Prop :=
  ∃ node, tree.at? place = some node ∧ node.IsNamedCall

theorem callsAt_iff {tree node : Node} {place : Address} (here : tree.at? place = some node) :
    tree.CallsAt place ↔ node.IsNamedCall := by
  simp [CallsAt, here]

end Script.Node

namespace Outline

open Script

variable {text : Wording} {tree node : Node} {start place : Address} {caller : Option String}

/-- A call site tells under which name the node at an address calls, and in which line. -/
def Tells (text : Wording) (tree : Node) (place : Address) (call : CallSite) : Prop :=
  ∃ node callee, tree.at? place = some node ∧ node.child? .callee = some callee ∧
    calleeName? text callee = some call.callee ∧ call.line = node.firstRow + 1

/-- The calls by name at the addresses that are searched, each once and in the order of the source. -/
structure IsListing (text : Wording) (tree : Node) (searched : Address → Prop)
    (calls : List CallSite) (listing : List (Address × CallSite)) : Prop where
  calls_eq : listing.map (·.2) = calls
  ordered : (listing.map (·.1)).Pairwise (· < ·)
  mem_iff : ∀ place, place ∈ listing.map (·.1) ↔ tree.CallsAt place ∧ searched place
  tells : ∀ item ∈ listing, Tells text tree item.1 item.2

/-- The calls are those at the addresses that are searched, with the callers that these give them. -/
def AreCalls (text : Wording) (tree : Node) (searched : Address → Prop)
    (calls : List CallSite) : Prop :=
  ∃ listing, IsListing text tree searched calls listing ∧
    ∀ item ∈ listing, IsCaller text tree (Address.Encloses · item.1) item.2.caller

namespace AreCalls

variable {searched others : Address → Prop} {calls more : List CallSite}

theorem nil (nothing : ∀ place, tree.CallsAt place → ¬searched place) :
    AreCalls text tree searched [] := by
  refine ⟨[], ⟨rfl, .nil, fun place => ?_, by simp⟩, by simp⟩
  simp only [List.map_nil, List.not_mem_nil, false_iff]
  rintro ⟨call, inside⟩
  exact nothing place call inside

theorem congr (all : AreCalls text tree searched calls)
    (same : ∀ place, tree.CallsAt place → (searched place ↔ others place)) :
    AreCalls text tree others calls := by
  obtain ⟨listing, ⟨calls_eq, ordered, mem_iff, tells⟩, callers⟩ := all
  refine ⟨listing, ⟨calls_eq, ordered, fun place => (mem_iff place).trans ?_, tells⟩, callers⟩
  exact and_congr_right (same place)

theorem append (first : AreCalls text tree searched calls) (second : AreCalls text tree others more)
    (before : ∀ place other, searched place → others other → place < other) :
    AreCalls text tree (fun place => searched place ∨ others place) (calls ++ more) := by
  obtain ⟨listing, ⟨rfl, ordered, mem_iff, tells⟩, callers⟩ := first
  obtain ⟨listing', ⟨rfl, ordered', mem_iff', tells'⟩, callers'⟩ := second
  refine ⟨listing ++ listing', ⟨List.map_append, ?_, fun place => ?_, ?_⟩, ?_⟩
  · rw [List.map_append, List.pairwise_append]
    refine ⟨ordered, ordered', fun place member other member' => ?_⟩
    exact before place other ((mem_iff place).mp member).2 ((mem_iff' other).mp member').2
  · rw [List.map_append, List.mem_append, mem_iff, mem_iff', ← and_or_left]
  · exact List.forall_mem_append.mpr ⟨tells, tells'⟩
  · exact List.forall_mem_append.mpr ⟨callers, callers'⟩

/-- What is found below the children one after the other is found below the node. -/
theorem children {make : Node → List CallSite} (here : tree.at? start = some node)
    (each : ∀ step child, node.children[step]? = some child →
      AreCalls text tree (fun place => searched place ∧ start ++ [step] <+: place) (make child)) :
    AreCalls text tree (fun place => searched place ∧ ∃ step, start ++ [step] <+: place)
      (node.children.flatMap make) := by
  have upTo (count : Nat) (within : count ≤ node.children.length) :
      AreCalls text tree
        (fun place => searched place ∧ ∃ step, step < count ∧ start ++ [step] <+: place)
        ((node.children.take count).flatMap make) := by
    induction count with
    | zero => exact nil fun place _ ⟨_, step, small, _⟩ => Nat.not_lt_zero step small
    | succ count ih =>
      have listed : node.children[count]? = some node.children[count] :=
        List.getElem?_eq_getElem (Nat.lt_of_succ_le within)
      have last := (ih (Nat.le_of_succ_le within)).append (each count _ listed)
        fun place other ⟨_, step, small, above⟩ ⟨_, above'⟩ => Address.lt_of_lt small above above'
      rw [List.take_succ_eq_append_getElem (Nat.lt_of_succ_le within), List.flatMap_append,
        List.flatMap_singleton]
      refine last.congr fun place _ => ?_
      simp only [Nat.lt_succ_iff_lt_or_eq, or_and_right, exists_or, exists_eq_left, and_or_left]
  have whole := upTo node.children.length (Nat.le_refl _)
  rw [List.take_length] at whole
  refine whole.congr fun place ⟨call, found, _⟩ => and_congr_right fun _ => ?_
  constructor
  · rintro ⟨step, _, above⟩
    exact ⟨step, above⟩
  · rintro ⟨step, rest, rfl⟩
    rw [List.append_assoc, Node.at?_of_at? here] at found
    obtain ⟨next, listed, _⟩ := Node.exists_child_of_at? found
    exact ⟨step, (List.getElem?_eq_some_iff.mp listed).1, rest, rfl⟩

theorem below {make : Node → List CallSite} (here : tree.at? start = some node)
    (each : ∀ step child, node.children[step]? = some child →
      AreCalls text tree (start ++ [step] <+: ·) (make child)) :
    AreCalls text tree (start.Encloses ·) (node.children.flatMap make) := by
  have found : AreCalls text tree (fun place => True ∧ ∃ step, start ++ [step] <+: place)
      (node.children.flatMap make) :=
    children here fun step child listed =>
      (each step child listed).congr fun place _ => (and_iff_right trivial).symm
  exact found.congr fun place _ => (and_iff_right trivial).trans Address.encloses_iff.symm

/-- What is found in the first child of a sort, if there is one. -/
theorem chosen {choose : Node → Bool} {make : Node → List CallSite}
    (each : ∀ step child, node.children.findIdx? choose = some step →
      node.children[step]? = some child → AreCalls text tree (start ++ [step] <+: ·) (make child)) :
    AreCalls text tree
      (fun place => ∃ step, node.children.findIdx? choose = some step ∧ start ++ [step] <+: place)
      (((node.children.find? choose).map make).getD []) := by
  rw [List.find?_eq_bind_findIdx?_getElem?]
  cases found : node.children.findIdx? choose with
  | none => exact nil fun place _ ⟨step, found', _⟩ => nomatch found'
  | some step =>
    obtain ⟨bound, _⟩ := List.findIdx?_eq_some_iff_getElem.mp found
    have listed : node.children[step]? = some node.children[step] := List.getElem?_eq_getElem bound
    rw [Option.bind_some, listed]
    refine (each step _ found listed).congr fun place _ => ⟨fun within => ⟨step, rfl, within⟩, ?_⟩
    rintro ⟨other, found', within⟩
    obtain rfl := Option.some.inj found'
    exact within

end AreCalls

theorem exists_calleeName?_iff {callee : Node} :
    (∃ name, calleeName? text callee = some name) ↔
      callee.kind = .identifier ∨
        callee.kind = .memberExpression ∧ ∃ property, callee.child? .property = some property := by
  unfold calleeName?
  split
  · next kind => simp [kind]
  · next kind => simp [kind]
  · next plain member =>
    refine iff_of_false (fun ⟨_, named⟩ => nomatch named) ?_
    rintro (kind | ⟨kind, _⟩)
    · exact plain kind
    · exact member kind

/-- A node itself is a call at most. -/
theorem ownCall_areCalls (here : tree.at? start = some node)
    (decided : IsCaller text tree (Address.Encloses · start) caller) :
    AreCalls text tree (· = start) (ownCall text caller node) := by
  by_cases call : node.IsNamedCall
  · obtain ⟨kind, callee, called, named⟩ := call
    obtain ⟨name, said⟩ : ∃ name, calleeName? text callee = some name :=
      exists_calleeName?_iff.mpr named
    have own : ownCall text caller node = [⟨caller, name, node.firstRow + 1⟩] := by
      simp [ownCall, kind, called, said]
    rw [own]
    refine ⟨[(start, ⟨caller, name, node.firstRow + 1⟩)], ⟨rfl, List.pairwise_singleton _ _,
      fun place => ?_, ?_⟩, ?_⟩
    · rw [List.map_singleton, List.mem_singleton]
      refine (and_iff_right_of_imp ?_).symm
      rintro rfl
      exact (Node.callsAt_iff here).mpr ⟨kind, callee, called, named⟩
    · rintro item member
      obtain rfl := List.mem_singleton.mp member
      exact ⟨node, callee, here, called, said, rfl⟩
    · rintro item member
      obtain rfl := List.mem_singleton.mp member
      exact decided
  · have own : ownCall text caller node = [] := by
      unfold ownCall
      split
      · next kind =>
        split
        · next name said =>
          obtain ⟨callee, called, said⟩ := Option.bind_eq_some_iff.mp said
          exact absurd ⟨beq_iff_eq.mp kind, callee, called, exists_calleeName?_iff.mp ⟨name, said⟩⟩ call
        · rfl
      · rfl
    rw [own]
    refine .nil ?_
    rintro place found rfl
    exact call ((Node.callsAt_iff here).mp found)

theorem not_isNamedCall_of_callerName? {name : String} (named : callerName? text node = some name) :
    ¬node.IsNamedCall := by
  rintro ⟨kind, _⟩
  unfold callerName? at named
  rw [kind] at named
  cases named

theorem callsBelow_eq_flatMap (caller : Option String) (children : List Node) :
    callsBelow text caller children = children.flatMap (callsIn text caller) := by
  induction children with
  | nil => rw [callsBelow, List.flatMap_nil]
  | cons child rest ih => rw [callsBelow, List.flatMap_cons, ih]

theorem callsIn_of_callerName? {name : String} (named : callerName? text node = some name)
    (caller : Option String) :
    callsIn text caller node = callsBelow text (some name) node.children := by
  cases node
  rw [callsIn, named]
  rfl

theorem callsIn_of_no_callerName? (plain : callerName? text node = none) (caller : Option String) :
    callsIn text caller node = ownCall text caller node ++ callsBelow text caller node.children := by
  cases node
  rw [callsIn, plain]
  rfl

/-- Wherever the node stands outside of methods, a search through it finds the calls in it. -/
def IsSearchable (text : Wording) (tree node : Node) : Prop :=
  ∀ start caller, tree.at? start = some node →
    (∀ place name, start <+: place → ¬IsMethod text tree place name) →
    IsCaller text tree (Address.Encloses · start) caller →
    AreCalls text tree (start <+: ·) (callsIn text caller node)

theorem callsBelow_areCalls_of (each : ∀ child ∈ node.children, IsSearchable text tree child)
    (here : tree.at? start = some node)
    (outside : ∀ place name, start.Encloses place → ¬IsMethod text tree place name)
    (decided : IsCaller text tree (· <+: start) caller) :
    AreCalls text tree (start.Encloses ·) (callsBelow text caller node.children) := by
  rw [callsBelow_eq_flatMap]
  refine AreCalls.below here fun step child listed => ?_
  exact each child (List.mem_of_getElem? listed) (start ++ [step]) caller
    (Node.at?_child here listed)
    (fun place name within => outside place name (Address.encloses_iff.mpr ⟨step, within⟩))
    ((isCaller_snoc step).mpr decided)

/-- A node with a name of its own takes over for what is below it, and others leave the caller as it
is; so a search passes the right one on. -/
theorem isSearchable (node : Node) : IsSearchable text tree node := by
  induction node using Node.induction with
  | node node each =>
  intro start caller here outside decided
  have outsideBelow : ∀ place name, start.Encloses place → ¬IsMethod text tree place name :=
    fun place name within => outside place name within.1
  have entered := decided.enter here fun name => outside start name (List.prefix_refl start)
  have all (place : Address) : start <+: place ↔ place = start ∨ start.Encloses place :=
    Address.prefix_iff
  cases named : callerName? text node with
  | some name =>
    rw [named] at entered
    rw [callsIn_of_callerName? named]
    have below := callsBelow_areCalls_of each here outsideBelow entered
    refine below.congr fun place call => ?_
    rw [all, or_iff_right]
    rintro rfl
    exact not_isNamedCall_of_callerName? named ((Node.callsAt_iff here).mp call)
  | none =>
    rw [named] at entered
    rw [callsIn_of_no_callerName? named]
    have own := ownCall_areCalls here decided
    have below := callsBelow_areCalls_of each here outsideBelow entered
    have before : ∀ place other, place = start → start.Encloses other → place < other := by
      rintro place other rfl around
      exact around.lt
    exact (own.append below before).congr fun place _ => (all place).symm

theorem callsBelow_areCalls (here : tree.at? start = some node)
    (outside : ∀ place name, start.Encloses place → ¬IsMethod text tree place name)
    (decided : IsCaller text tree (· <+: start) caller) :
    AreCalls text tree (start.Encloses ·) (callsBelow text caller node.children) :=
  callsBelow_areCalls_of (fun child _ => isSearchable child) here outside decided

end Outline

end CodeAtlas
