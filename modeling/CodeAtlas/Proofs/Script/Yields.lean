import CodeAtlas.Script.Grammar

namespace CodeAtlas.Script

namespace Reader

variable {α β : Type} {P : α → Prop} {Q : β → Prop} {reader other : Reader α}

/-- Whatever the reader yields has the property. -/
def Yields (reader : Reader α) (P : α → Prop) : Prop :=
  ∀ cursor value rest, reader cursor = .ok (value, rest) → P value

namespace Yields

theorem pure {value : α} (holds : P value) : Yields (Pure.pure value) P := by
  intro cursor found rest read
  cases read
  exact holds

theorem bind {next : α → Reader β} (first : Yields reader P)
    (second : ∀ value, P value → Yields (next value) Q) : Yields (reader >>= next) Q := by
  intro cursor found rest read
  cases step : reader cursor with
  | error failure =>
    rw [show (reader >>= next) cursor = .error failure by simp [Bind.bind, StateT.bind, step, Except.bind]]
      at read
    cases read
  | ok result =>
    rw [show (reader >>= next) cursor = next result.1 result.2 by
      simp [Bind.bind, StateT.bind, step, Except.bind]] at read
    exact second result.1 (first cursor result.1 result.2 step) result.2 found rest read

/-- What is read first may be of no matter. -/
theorem after {next : α → Reader β} (second : ∀ value, Yields (next value) Q) :
    Yields (reader >>= next) Q :=
  bind (fun _ _ _ _ => trivial : Yields reader fun _ => True) fun value _ => second value

theorem fail : Yields (fail : Reader α) P := by
  intro cursor value rest read
  cases read

theorem ite {condition : Prop} [Decidable condition] (first : condition → Yields reader P)
    (second : ¬condition → Yields other P) : Yields (if condition then reader else other) P := by
  split
  · next holds => exact first holds
  · next fails => exact second fails

/-- A check may fail, and yields nothing. -/
theorem checked {condition : Prop} [Decidable condition] {check : Reader Unit}
    {next : Unit → Reader α} (rest : ∀ checked, Yields (next checked) P) :
    Yields (if condition then check >>= next else next ()) P :=
  ite (fun _ => after rest) fun _ => rest ()

theorem orElse (first : Yields reader P) (second : Yields other P) :
    Yields (reader.orElse other) P := by
  intro cursor value rest read
  unfold Reader.orElse at read
  cases step : reader cursor with
  | ok result =>
    rw [step] at read
    cases read
    exact first cursor _ _ step
  | error failure =>
    rw [step] at read
    cases step' : other cursor with
    | ok result =>
      rw [step'] at read
      cases read
      exact second cursor _ _ step'
    | error failure' =>
      rw [step'] at read
      cases read

theorem attempt (inside : Yields reader P) :
    Yields reader.attempt fun found => ∀ value ∈ found, P value := by
  refine .orElse (.bind inside fun value holds => .pure ?_) (.pure fun _ none => nomatch none)
  rintro _ ⟨⟩
  exact holds

theorem blame (inside : Yields reader P) : Yields reader.blame P := by
  intro cursor value rest read
  unfold Reader.blame at read
  cases step : reader cursor with
  | ok result =>
    rw [step] at read
    cases read
    exact inside cursor _ _ step
  | error failure =>
    rw [step] at read
    cases read

theorem mono {R : α → Prop} (inside : Yields reader R) (weaker : ∀ value, R value → P value) :
    Yields reader P :=
  fun cursor value rest read => weaker value (inside cursor value rest read)

theorem repeated {step : Reader (Option α)} (each : Yields step fun found => ∀ item ∈ found, P item)
    (bound : Nat) : Yields (Reader.repeated step bound) fun found => ∀ item ∈ found, P item := by
  have go (bound : Nat) (found : List α) (before : ∀ item ∈ found, P item) :
      Yields (repeated.go step bound found) fun found => ∀ item ∈ found, P item := by
    induction bound generalizing found with
    | zero => exact .pure fun item member => before item (List.mem_reverse.mp member)
    | succ bound ih =>
      refine .bind each fun next holds => ?_
      cases next with
      | none => exact .pure fun item member => before item (List.mem_reverse.mp member)
      | some item => exact ih (item :: found) (List.forall_mem_cons.mpr ⟨holds item rfl, before⟩)
  exact go bound [] fun _ member => nomatch member

theorem nodeFrom {P : Node → Prop} {kind : Kind} {start : Position} {children : List Node}
    (holds : ∀ span, P (.mk kind none span children)) : Yields (Reader.nodeFrom kind start children) P :=
  .after fun _ => .pure (holds _)

theorem node {P : Node → Prop} {R : List Node → Prop} {kind : Kind} {content : Reader (List Node)}
    (inside : Yields content R) (holds : ∀ span children, R children → P (.mk kind none span children)) :
    Yields (Reader.node kind content) P :=
  .after fun _ => .after fun _ => .bind inside fun _ children =>
    .after fun _ => .pure (holds _ _ children)

/-- A node whose children are of no matter. -/
theorem nodeOf {P : Node → Prop} {kind : Kind} {content : Reader (List Node)}
    (holds : ∀ span children, P (.mk kind none span children)) : Yields (Reader.node kind content) P :=
  .node (fun _ _ _ _ => trivial : Yields content fun _ => True) fun span children _ =>
    holds span children

theorem items {P : Node → Prop} (g : Grammar) (close : Char) (gaps : Bool) {item : Reader Node}
    (each : Yields item P) : Yields (g.items close gaps item) fun found => ∀ node ∈ found, P node := by
  have step : Yields (Grammar.items.step close gaps item)
      fun found => ∀ node? ∈ found, ∀ node ∈ node?, P node := by
    refine .after fun _ => .ite (fun _ => .pure (by simp)) fun _ => ?_
    refine .after fun _ => .ite (fun _ => .pure (by simp)) fun _ => ?_
    exact .bind each fun node holds => .after fun _ => .checked fun _ => .pure (by simpa using holds)
  unfold Grammar.items
  refine .bind (.repeated step g.bound) fun found holds => .after fun _ => .pure fun node member => ?_
  obtain ⟨node?, listed, rfl⟩ := List.mem_filterMap.mp member
  exact holds _ listed node rfl

end Yields

end Reader

end CodeAtlas.Script
