import CodeAtlas.Graph.Query
import Mathlib.Data.List.Forall2
import Mathlib.Data.List.Nodup
import Mathlib.Data.List.Perm.Subperm
import Mathlib.Order.Bounds.Defs

namespace CodeAtlas

/-- A way of so many steps from the first node. -/
inductive Trail {ν : Type} (leads : ν → ν → Prop) (first : ν) : Nat → ν → Prop
  | here : Trail leads first 0 first
  | snoc {length : Nat} {middle last : ν} : Trail leads first length middle → leads middle last →
      Trail leads first (length + 1) last

/-- The length of a shortest way with at least one step. -/
def IsDistance {ν : Type} (leads : ν → ν → Prop) (first last : ν) (distance : Nat) : Prop :=
  IsLeast {length | 0 < length ∧ Trail leads first length last} distance

theorem Trail.mem {ν : Type} {leads : ν → ν → Prop} {all : List ν}
    (inside : ∀ node other, leads node other → other ∈ all) {length : Nat} {first last : ν}
    (trail : Trail leads first length last) (start : first ∈ all) : last ∈ all := by
  cases trail with
  | here => exact start
  | snoc _ step => exact inside _ _ step

/-- A way with a step begins with one. -/
theorem Trail.exists_leads {ν : Type} {leads : ν → ν → Prop} {length : Nat} {first last : ν}
    (trail : Trail leads first length last) (steps : 0 < length) : ∃ other, leads first other := by
  induction trail with
  | here => cases steps
  | @snoc length middle last before leads ih =>
    cases before with
    | here => exact ⟨last, leads⟩
    | snoc => exact ih (Nat.succ_pos _)

/-- It takes a step to get to another node. -/
theorem Trail.pos {ν : Type} {leads : ν → ν → Prop} {length : Nat} {first last : ν}
    (trail : Trail leads first length last) (apart : last ≠ first) : 0 < length := by
  cases trail with
  | here => exact absurd rfl apart
  | snoc => exact Nat.succ_pos _

namespace Graph.Walk

variable {ν : Type}

/-- What was found, the start included, in the order in which it is looked at. -/
def order (walk : Walk ν) (first : ν) : List (ν × Nat) := (first, 0) :: walk.found

/-- What is noted when a node is looked at: nothing if it is too far away. -/
def ahead (next : ν → List ν) (maxDepth : Nat) (entry : ν × Nat) : List ν :=
  if maxDepth ≤ entry.2 then [] else next entry.1

theorem mem_ahead_iff {next : ν → List ν} {maxDepth : Nat} {entry : ν × Nat} {node : ν} :
    node ∈ ahead next maxDepth entry ↔ entry.2 < maxDepth ∧ node ∈ next entry.1 := by
  unfold ahead
  split
  · next far => exact iff_of_false List.not_mem_nil fun here => Nat.not_lt_of_le far here.1
  · next near => exact (and_iff_right (Nat.lt_of_not_le near)).symm

/-- A search on its way. First stand the nodes that were looked at, and what comes next to them was found
at most one step further unless it is too far away; then those that are still to be looked at. Distances
never fall, and none is more than one step ahead of a node that waits. -/
structure Sound (next : ν → List ν) (maxDepth : Nat) (first : ν) (walk : Walk ν)
    (done : List (ν × Nat)) : Prop where
  order : walk.order first = done ++ walk.queue
  visited : ∀ node, node ∈ walk.visited ↔ node ∈ (walk.order first).map (·.1)
  distinct : ((walk.order first).map (·.1)).Nodup
  trails : ∀ entry ∈ walk.order first, Trail (fun node other => other ∈ next node) first entry.2 entry.1
  bounded : ∀ entry ∈ walk.order first, entry.2 ≤ maxDepth
  closed : ∀ entry ∈ done, ∀ node ∈ ahead next maxDepth entry,
    ∃ distance ≤ entry.2 + 1, (node, distance) ∈ walk.order first
  sorted : (walk.order first).Pairwise fun nearer farther => nearer.2 ≤ farther.2
  level : ∀ waiting ∈ walk.queue, ∀ entry ∈ walk.order first, entry.2 ≤ waiting.2 + 1

theorem sound_start (next : ν → List ν) (maxDepth : Nat) (first : ν) :
    Sound next maxDepth first (start first) [] := by
  have order : (start first).order first = [(first, 0)] := rfl
  have queue : (start first).queue = [(first, 0)] := rfl
  have visited : (start first).visited = [first] := rfl
  refine ⟨rfl, fun node => ?_, ?_, ?_, ?_, ?_, ?_, ?_⟩
  · rw [order, visited]
    exact Iff.rfl
  · rw [order]
    exact List.nodup_singleton first
  · rw [order]
    exact List.forall_mem_singleton.mpr .here
  · rw [order]
    exact List.forall_mem_singleton.mpr (Nat.zero_le _)
  · exact fun entry nothing => nomatch nothing
  · rw [order]
    exact List.pairwise_singleton _ _
  · rw [order, queue]
    exact List.forall_mem_singleton.mpr (List.forall_mem_singleton.mpr (Nat.zero_le _))

variable {next : ν → List ν} {maxDepth : Nat} {first : ν} {walk : Walk ν} {done : List (ν × Nat)}

/-- A search among so many nodes is over after as many steps. -/
theorem Sound.queue_eq_nil (sound : Sound next maxDepth first walk done) (all : List ν)
    (inside : ∀ entry ∈ walk.order first, entry.1 ∈ all)
    (ended : walk.queue = [] ∨ all.length ≤ done.length) : walk.queue = [] := by
  refine ended.elim id fun enough => List.length_eq_zero_iff.mp ?_
  have fits := (List.Nodup.subperm sound.distinct (List.forall_mem_map.mpr inside)).length_le
  rw [List.length_map, sound.order, List.length_append] at fits
  omega

/-- A node is found at one distance only. -/
theorem Sound.distance_unique (sound : Sound next maxDepth first walk done) {node : ν}
    {distance other : Nat} (found : (node, distance) ∈ walk.order first)
    (again : (node, other) ∈ walk.order first) : distance = other :=
  congrArg Prod.snd (List.inj_on_of_nodup_map sound.distinct found again rfl)

/-- What waits is no nearer than what is looked at next. -/
theorem Sound.waits (sound : Sound next maxDepth first walk done) {entry : ν × Nat}
    {queue : List (ν × Nat)} (queued : walk.queue = entry :: queue) :
    ∀ other ∈ walk.queue, entry.2 ≤ other.2 := by
  have sorted := sound.sorted
  rw [sound.order] at sorted
  have waiting := (List.pairwise_append.mp sorted).2.1
  rw [queued] at waiting ⊢
  exact List.forall_mem_cons.mpr ⟨Nat.le_refl _, (List.pairwise_cons.mp waiting).1⟩

/-- When a search is over, whatever can be reached was found at no more than the length of the way. -/
theorem Sound.exists_of_trail (sound : Sound next maxDepth first walk done) (ended : walk.queue = [])
    {length : Nat} {last : ν} (trail : Trail (fun node other => other ∈ next node) first length last)
    (near : length ≤ maxDepth) :
    ∃ distance ≤ length, (last, distance) ∈ walk.order first := by
  induction trail with
  | here => exact ⟨0, Nat.le_refl _, List.mem_cons_self⟩
  | @snoc length middle last _ leads ih =>
    obtain ⟨distance, within, found⟩ := ih (Nat.le_of_succ_le near)
    have looked : (middle, distance) ∈ done := by
      have order := sound.order
      rw [ended, List.append_nil] at order
      exact order ▸ found
    -- The node before the last one was looked at when it was still near enough.
    have noted : last ∈ ahead next maxDepth (middle, distance) :=
      mem_ahead_iff.mpr ⟨Nat.lt_of_le_of_lt within near, leads⟩
    obtain ⟨further, close, reached⟩ := sound.closed _ looked last noted
    exact ⟨further, Nat.le_trans close (Nat.succ_le_succ within), reached⟩

/-- What was found when a search is over. -/
theorem Sound.mem_found_iff (sound : Sound next maxDepth first walk done) (ended : walk.queue = [])
    {node : ν} {distance : Nat} :
    (node, distance) ∈ walk.found ↔ node ≠ first ∧ distance ≤ maxDepth ∧
      IsDistance (fun node other => other ∈ next node) first node distance := by
  constructor
  · intro found
    have listed : (node, distance) ∈ walk.order first := List.mem_cons_of_mem _ found
    have apart : node ≠ first := by
      rintro rfl
      exact (List.nodup_cons.mp sound.distinct).1 (List.mem_map.mpr ⟨_, found, rfl⟩)
    have trail := sound.trails _ listed
    refine ⟨apart, sound.bounded _ listed, ⟨trail.pos apart, trail⟩, ?_⟩
    rintro length ⟨_, other⟩
    rcases Nat.le_total length maxDepth with near | far
    · obtain ⟨shorter, within, again⟩ := sound.exists_of_trail ended other near
      exact sound.distance_unique again listed ▸ within
    · exact Nat.le_trans (sound.bounded _ listed) far
  · rintro ⟨apart, near, ⟨_, trail⟩, least⟩
    obtain ⟨shorter, within, found⟩ := sound.exists_of_trail ended trail near
    have other := sound.trails _ found
    obtain rfl := Nat.le_antisymm within (least ⟨other.pos apart, other⟩)
    rcases List.mem_cons.mp found with start | found
    · exact absurd (congrArg Prod.fst start) apart
    · exact found

/-- Two searches that note related nodes at the same distances. -/
structure Related {μ : Type} (related : ν → μ → Prop) (walk : Walk ν) (other : Walk μ) : Prop where
  visited : walk.visited.Forall₂ related other.visited
  found : walk.found.Forall₂ (fun entry entry' => related entry.1 entry'.1 ∧ entry.2 = entry'.2)
    other.found
  queue : walk.queue.Forall₂ (fun entry entry' => related entry.1 entry'.1 ∧ entry.2 = entry'.2)
    other.queue

theorem related_start {μ : Type} {related : ν → μ → Prop} {first : ν} {first' : μ}
    (same : related first first') : Related related (start first) (start first') :=
  ⟨.cons same .nil, .nil, .cons ⟨same, rfl⟩ .nil⟩

variable [BEq ν]

theorem step_of_empty {walk : Walk ν} (empty : walk.queue = []) (next : ν → List ν) (maxDepth : Nat) :
    walk.step next maxDepth = walk := by
  unfold step
  rw [empty]

theorem step_eq {walk : Walk ν} {entry : ν × Nat} {queue : List (ν × Nat)}
    (queued : walk.queue = entry :: queue) (next : ν → List ν) (maxDepth : Nat) :
    walk.step next maxDepth =
      (ahead next maxDepth entry).foldl (·.visit (entry.2 + 1)) { walk with queue } := by
  unfold step ahead
  rw [queued]
  dsimp only
  split <;> rfl

/-- Nothing more is found as far away as the bound. -/
theorem step_of_far {entry : ν × Nat} {queue : List (ν × Nat)} (queued : walk.queue = entry :: queue)
    (far : maxDepth ≤ entry.2) : walk.step next maxDepth = { walk with queue } := by
  rw [step_eq queued, ahead, if_pos far]
  rfl

theorem search_of_empty {walk : Walk ν} (empty : walk.queue = []) (next : ν → List ν)
    (maxDepth steps : Nat) : walk.search next maxDepth steps = walk := by
  induction steps with
  | zero => rfl
  | succ steps ih => rw [search, step_of_empty empty, ih]

theorem search_add (walk : Walk ν) (next : ν → List ν) (maxDepth steps more : Nat) :
    walk.search next maxDepth (steps + more) =
      (walk.search next maxDepth steps).search next maxDepth more := by
  induction steps generalizing walk with
  | zero => rw [Nat.zero_add, search]
  | succ steps ih => rw [Nat.succ_add, search, search, ih]

/-- Which nodes of a list are noted at a distance: the fresh ones, each once. -/
structure Notes (walk after : Walk ν) (distance : Nat) (nodes fresh : List ν) : Prop where
  found : after.found = walk.found ++ fresh.map (·, distance)
  queue : after.queue = walk.queue ++ fresh.map (·, distance)
  visited : ∀ node, node ∈ after.visited ↔ node ∈ walk.visited ∨ node ∈ fresh
  unseen : ∀ node ∈ fresh, node ∈ nodes ∧ node ∉ walk.visited
  distinct : fresh.Nodup
  all : ∀ node ∈ nodes, node ∈ after.visited

variable [LawfulBEq ν]

theorem exists_notes (walk : Walk ν) (distance : Nat) (nodes : List ν) :
    ∃ fresh, Notes walk (nodes.foldl (·.visit distance) walk) distance nodes fresh := by
  induction nodes generalizing walk with
  | nil => exact ⟨[], by simp, by simp, by simp, by simp, List.nodup_nil, by simp⟩
  | cons node nodes ih =>
    obtain ⟨fresh, notes⟩ := ih (walk.visit distance node)
    rw [List.foldl_cons]
    by_cases seen : node ∈ walk.visited
    · have same : walk.visit distance node = walk := if_pos (List.contains_iff_mem.mpr seen)
      rw [same] at notes ⊢
      refine ⟨fresh, notes.found, notes.queue, notes.visited, fun other new => ?_, notes.distinct, ?_⟩
      · exact ⟨List.mem_cons_of_mem _ (notes.unseen other new).1, (notes.unseen other new).2⟩
      · exact List.forall_mem_cons.mpr ⟨(notes.visited node).mpr (.inl seen), notes.all⟩
    · have noted : walk.visit distance node = ⟨node :: walk.visited,
          walk.found ++ [(node, distance)], walk.queue ++ [(node, distance)]⟩ :=
        if_neg (seen ∘ List.contains_iff_mem.mp)
      rw [noted] at notes ⊢
      have apart : node ∉ fresh := fun again => (notes.unseen node again).2 List.mem_cons_self
      refine ⟨node :: fresh, ?_, ?_, fun other => ?_, ?_, notes.distinct.cons apart, ?_⟩
      · rw [notes.found, List.map_cons, List.append_assoc, List.singleton_append]
      · rw [notes.queue, List.map_cons, List.append_assoc, List.singleton_append]
      · rw [notes.visited, List.mem_cons, List.mem_cons, or_left_comm, or_assoc]
      · refine List.forall_mem_cons.mpr ⟨⟨List.mem_cons_self, seen⟩, fun other new => ?_⟩
        obtain ⟨listed, unseen⟩ := notes.unseen other new
        exact ⟨List.mem_cons_of_mem _ listed, unseen ∘ List.mem_cons_of_mem _⟩
      · exact List.forall_mem_cons.mpr
          ⟨(notes.visited node).mpr (.inl List.mem_cons_self), notes.all⟩

theorem exists_notes_step {walk : Walk ν} {entry : ν × Nat} {queue : List (ν × Nat)}
    (queued : walk.queue = entry :: queue) (next : ν → List ν) (maxDepth : Nat) :
    ∃ fresh, Notes { walk with queue } (walk.step next maxDepth) (entry.2 + 1)
      (ahead next maxDepth entry) fresh := by
  rw [step_eq queued]
  exact exists_notes _ _ _

/-- What one step preserves. -/
theorem Sound.step (sound : Sound next maxDepth first walk done) {entry : ν × Nat}
    {queue : List (ν × Nat)} (queued : walk.queue = entry :: queue) :
    Sound next maxDepth first (walk.step next maxDepth) (done ++ [entry]) := by
  obtain ⟨fresh, notes⟩ := exists_notes_step queued next maxDepth
  generalize walk.step next maxDepth = after at notes ⊢
  have grown : after.order first = walk.order first ++ fresh.map (·, entry.2 + 1) :=
    congrArg ((first, 0) :: ·) notes.found
  have waiting : entry ∈ walk.queue := queued ▸ List.mem_cons_self
  have listed : entry ∈ walk.order first := sound.order ▸ List.mem_append_right _ waiting
  have near : ∀ node ∈ fresh, entry.2 < maxDepth ∧ node ∈ next entry.1 := fun node new =>
    mem_ahead_iff.mp (notes.unseen node new).1
  have ids : (after.order first).map (·.1) = (walk.order first).map (·.1) ++ fresh := by
    rw [grown, List.map_append, List.map_map]
    exact congrArg (_ ++ ·) (List.map_id fresh)
  have each {p : ν × Nat → Prop} (old : ∀ other ∈ walk.order first, p other)
      (new : ∀ node ∈ fresh, p (node, entry.2 + 1)) : ∀ other ∈ after.order first, p other := by
    rw [grown]
    exact List.forall_mem_append.mpr ⟨old, List.forall_mem_map.mpr new⟩
  refine ⟨?_, fun node => ?_, ?_, ?_, ?_, ?_, ?_, ?_⟩
  · rw [grown, sound.order, queued, notes.queue]
    simp only [List.append_assoc, List.cons_append, List.nil_append]
  · rw [ids, notes.visited, List.mem_append, ← sound.visited]
  -- A fresh node was not visited before, so it has no distance yet.
  · rw [ids]
    refine List.nodup_append.mpr ⟨sound.distinct, notes.distinct, ?_⟩
    rintro node old _ new rfl
    exact (notes.unseen node new).2 ((sound.visited node).mpr old)
  · exact each sound.trails fun node new => (sound.trails entry listed).snoc (near node new).2
  · exact each sound.bounded fun node new => (near node new).1
  -- What comes next to the node was found before, no further away than the level allows, or just now.
  · intro other looked node leads
    have kept {distance : Nat} (found : (node, distance) ∈ walk.order first) :
        (node, distance) ∈ after.order first := grown ▸ List.mem_append_left _ found
    rcases List.mem_append.mp looked with before | now
    · obtain ⟨distance, near, found⟩ := sound.closed other before node leads
      exact ⟨distance, near, kept found⟩
    · obtain rfl := List.mem_singleton.mp now
      rcases (notes.visited node).mp (notes.all node leads) with old | new
      · obtain ⟨⟨_, distance⟩, found, rfl⟩ := List.mem_map.mp ((sound.visited node).mp old)
        exact ⟨distance, sound.level other waiting _ found, kept found⟩
      · exact ⟨other.2 + 1, Nat.le_refl _,
          grown ▸ List.mem_append_right _ (List.mem_map_of_mem new)⟩
  · rw [grown]
    refine List.pairwise_append.mpr ⟨sound.sorted, ?_, ?_⟩
    · exact List.pairwise_map.mpr (List.pairwise_of_forall fun _ _ => Nat.le_refl _)
    · intro old inOld _ new
      obtain ⟨node, _, rfl⟩ := List.mem_map.mp new
      exact sound.level entry waiting old inOld
  · rw [notes.queue]
    refine List.forall_mem_append.mpr ⟨fun other later => ?_, List.forall_mem_map.mpr fun node new => ?_⟩
    · have stays : other ∈ walk.queue := queued ▸ List.mem_cons_of_mem _ later
      refine each (sound.level other stays) fun node new => ?_
      exact Nat.succ_le_succ (sound.waits queued other stays)
    · refine each (fun old found => ?_) fun _ _ => Nat.le_succ _
      exact Nat.le_succ_of_le (sound.level entry waiting old found)

/-- What a whole search preserves. As long as it is not over, it looks at one node more in every step. -/
theorem Sound.search (sound : Sound next maxDepth first walk done) (steps : Nat) :
    ∃ looked, Sound next maxDepth first (walk.search next maxDepth steps) looked ∧
      ((walk.search next maxDepth steps).queue = [] ∨ looked.length = done.length + steps) := by
  induction steps generalizing walk done with
  | zero => exact ⟨done, sound, .inr rfl⟩
  | succ steps ih =>
    cases queued : walk.queue with
    | nil =>
      rw [search_of_empty queued]
      exact ⟨done, sound, .inl queued⟩
    | cons entry queue =>
      obtain ⟨looked, after, ended⟩ := ih (sound.step queued)
      refine ⟨looked, after, ended.imp_right fun length => length.trans ?_⟩
      rw [List.length_append, List.length_singleton]
      omega

/-- A search with a bound and one that goes further, when all that still waits is as far away as the
bound. -/
structure Parted (maxDepth : Nat) (walk further : Walk ν) : Prop where
  found : ∃ more, further.found = walk.found ++ more ∧ ∀ entry ∈ more, maxDepth < entry.2
  waiting : ∀ entry ∈ walk.queue, maxDepth ≤ entry.2
  ahead : ∀ entry ∈ further.queue, maxDepth ≤ entry.2

theorem Parted.step {further : Walk ν} {larger : Nat} (parted : Parted maxDepth walk further) :
    Parted maxDepth (walk.step next maxDepth) (further.step next larger) := by
  obtain ⟨found, waiting, ahead⟩ := parted
  have stays : (walk.step next maxDepth).found = walk.found ∧
      ∀ entry ∈ (walk.step next maxDepth).queue, maxDepth ≤ entry.2 := by
    cases queued : walk.queue with
    | nil =>
      rw [step_of_empty queued]
      exact ⟨rfl, waiting⟩
    | cons entry queue =>
      rw [queued] at waiting
      rw [step_of_far queued (waiting entry List.mem_cons_self)]
      exact ⟨rfl, fun other later => waiting other (List.mem_cons_of_mem _ later)⟩
  obtain ⟨same, waiting⟩ := stays
  cases queued : further.queue with
  | nil =>
    rw [step_of_empty queued]
    exact ⟨by rw [same]; exact found, waiting, ahead⟩
  | cons entry queue =>
    obtain ⟨fresh, notes⟩ := exists_notes_step queued next larger
    obtain ⟨more, grown, far⟩ := found
    rw [queued] at ahead
    obtain ⟨here, later⟩ := List.forall_mem_cons.mp ahead
    refine ⟨⟨more ++ fresh.map (·, entry.2 + 1), ?_, ?_⟩, waiting, ?_⟩
    · rw [notes.found, same, grown, List.append_assoc]
    · exact List.forall_mem_append.mpr
        ⟨far, List.forall_mem_map.mpr fun _ _ => Nat.lt_succ_of_le here⟩
    · rw [notes.queue]
      exact List.forall_mem_append.mpr
        ⟨later, List.forall_mem_map.mpr fun _ _ => Nat.le_succ_of_le here⟩

/-- Up to the bound the search that goes further does the same. -/
theorem Sound.step_or_parted (sound : Sound next maxDepth first walk done) {larger : Nat}
    (le : maxDepth ≤ larger) :
    walk.step next larger = walk.step next maxDepth ∨
      Parted maxDepth (walk.step next maxDepth) (walk.step next larger) := by
  cases queued : walk.queue with
  | nil =>
    rw [step_of_empty queued, step_of_empty queued]
    exact .inl rfl
  | cons entry queue =>
    rcases Nat.lt_or_ge entry.2 maxDepth with near | far
    · rw [step_eq queued, step_eq queued, ahead, ahead, if_neg (Nat.not_le_of_lt near),
        if_neg (Nat.not_le_of_lt (Nat.lt_of_lt_of_le near le))]
      exact .inl rfl
    · have all : ∀ other ∈ walk.queue, maxDepth ≤ other.2 := fun other waits =>
        Nat.le_trans far (sound.waits queued other waits)
      have apart : Parted maxDepth walk walk :=
        ⟨⟨[], (List.append_nil _).symm, fun _ nothing => nomatch nothing⟩, all, all⟩
      exact .inr apart.step

theorem Parted.search {further : Walk ν} {larger : Nat} (parted : Parted maxDepth walk further)
    (steps : Nat) :
    Parted maxDepth (walk.search next maxDepth steps) (further.search next larger steps) := by
  induction steps generalizing walk further with
  | zero => exact parted
  | succ steps ih => exact ih parted.step

/-- A search that goes further finds the same, and then only what is too far away for the first one. -/
theorem Sound.found_further (sound : Sound next maxDepth first walk done) {larger : Nat}
    (le : maxDepth ≤ larger) (steps : Nat) :
    ∃ more, (walk.search next larger steps).found = (walk.search next maxDepth steps).found ++ more ∧
      ∀ entry ∈ more, maxDepth < entry.2 := by
  induction steps generalizing walk done with
  | zero => exact ⟨[], (List.append_nil _).symm, fun _ nothing => nomatch nothing⟩
  | succ steps ih =>
    rw [Walk.search, Walk.search]
    rcases sound.step_or_parted le with same | parted
    · rw [same]
      cases queued : walk.queue with
      | nil =>
        rw [step_of_empty queued]
        exact ih sound
      | cons entry queue => exact ih (sound.step queued)
    · exact (parted.search steps).found

section Related

variable {μ : Type} [BEq μ] [LawfulBEq μ] {related : ν → μ → Prop} {next' : μ → List μ} {other : Walk μ}

theorem Related.visit (unique : Relator.BiUnique related) (alike : Related related walk other)
    (distance : Nat) {node : ν} {node' : μ} (same : related node node') :
    Related related (walk.visit distance node) (other.visit distance node') := by
  have seen : walk.visited.contains node = other.visited.contains node' := by
    rw [Bool.eq_iff_iff, List.contains_iff_mem, List.contains_iff_mem]
    exact List.rel_mem unique same alike.visited
  unfold Walk.visit
  rw [seen]
  split
  · exact alike
  · exact ⟨.cons same alike.visited, List.rel_append alike.found (.cons ⟨same, rfl⟩ .nil),
      List.rel_append alike.queue (.cons ⟨same, rfl⟩ .nil)⟩

theorem Related.step (unique : Relator.BiUnique related)
    (nexts : ∀ node node', related node node' → (next node).Forall₂ related (next' node'))
    (alike : Related related walk other) (maxDepth : Nat) :
    Related related (walk.step next maxDepth) (other.step next' maxDepth) := by
  obtain ⟨seen, found, queue⟩ := walk
  obtain ⟨seen', found', queue'⟩ := other
  obtain ⟨visited, noted, waiting⟩ := alike
  change queue.Forall₂ _ queue' at waiting
  cases waiting with
  | nil => exact ⟨visited, noted, .nil⟩
  | @cons entry entry' queue queue' same waiting =>
    have popped : Related related ⟨seen, found, queue⟩ ⟨seen', found', queue'⟩ :=
      ⟨visited, noted, waiting⟩
    have looked : (ahead next maxDepth entry).Forall₂ related (ahead next' maxDepth entry') := by
      rw [ahead, ahead, same.2]
      split
      · exact .nil
      · exact nexts _ _ same.1
    rw [step_eq rfl, step_eq rfl, same.2]
    refine List.rel_foldl (P := Related related) ?_ popped looked
    exact fun _ _ sofar _ _ same => sofar.visit unique _ same

theorem Related.search (unique : Relator.BiUnique related)
    (nexts : ∀ node node', related node node' → (next node).Forall₂ related (next' node'))
    (alike : Related related walk other) (maxDepth steps : Nat) :
    Related related (walk.search next maxDepth steps) (other.search next' maxDepth steps) := by
  induction steps generalizing walk other with
  | zero => exact alike
  | succ steps ih => exact ih (alike.step unique nexts maxDepth)

end Related

end Graph.Walk

end CodeAtlas
