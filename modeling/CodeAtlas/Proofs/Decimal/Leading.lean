import CodeAtlas.Decimal.Shortest
import Mathlib.Data.Nat.Log
import Mathlib.Tactic.Ring

namespace CodeAtlas.Decimal

theorem tenTo_pos (power : Nat) : 0 < tenTo power := Nat.pow_pos (by decide)

/-- A thousand is less than the tenth power of two. -/
theorem tenTo_le_two_pow {power place : Nat} (below : 10 * (power / 3 + 1) ≤ place) :
    tenTo power ≤ 2 ^ place :=
  calc
    tenTo power ≤ 10 ^ (3 * (power / 3 + 1)) := Nat.pow_le_pow_right (by decide) (by omega)
    _ = 1000 ^ (power / 3 + 1) := Nat.pow_mul ..
    _ ≤ 1024 ^ (power / 3 + 1) := Nat.pow_le_pow_left (by decide) _
    _ = 2 ^ (10 * (power / 3 + 1)) := (Nat.pow_mul 2 10 _).symm
    _ ≤ 2 ^ place := Nat.pow_le_pow_right (by decide) below

/-- The decimal is at most a power of ten, and made of steps that are not longer than that. -/
structure Scaled.Within (s : Scaled) (limit : Nat) : Prop where
  coarse : s.exponent ≤ limit
  small : s.coefficient ≤ tenTo (limit - s.exponent).toNat

namespace Binary

variable {b : Binary} {low digits more : Nat} {place leading : Int} {found : Scaled}

/-- The place of the leading binary digit. -/
def top (b : Binary) : Int := b.mantissa.log2 + b.exponent

/-- A power of ten that is not above the leading binary digit goes into the number. -/
theorem floorAt_ne_zero {power : Nat} (nonzero : b.mantissa ≠ 0)
    (below : 10 * (power / 3 + 1) ≤ b.top) : b.floorAt power ≠ 0 := by
  have leading := Nat.log2_self_le nonzero
  have small : tenTo power ≤ 2 ^ b.top.toNat := tenTo_le_two_pow (by omega)
  unfold top at below small
  have fits : tenTo power * 2 ^ (-b.exponent).toNat ≤ b.mantissa * 2 ^ b.exponent.toNat :=
    calc
      tenTo power * 2 ^ (-b.exponent).toNat ≤
          2 ^ (b.mantissa.log2 + b.exponent).toNat * 2 ^ (-b.exponent).toNat :=
        Nat.mul_le_mul_right _ small
      _ = 2 ^ b.mantissa.log2 * 2 ^ b.exponent.toNat := by
        rw [← Nat.pow_add, ← Nat.pow_add]
        congr 1
        omega
      _ ≤ b.mantissa * 2 ^ b.exponent.toNat := Nat.mul_le_mul_right _ leading
  have units : tenTo (-(power : Int)).toNat = 1 := by
    have none : (-(power : Int)).toNat = 0 := by omega
    rw [none]
    rfl
  have positive : 0 < tenTo power * 2 ^ (-b.exponent).toNat :=
    Nat.mul_pos (tenTo_pos power) (Nat.two_pow_pos _)
  unfold floorAt
  rw [units, Nat.shiftLeft_eq, Nat.shiftLeft_eq, Nat.one_mul, Int.toNat_natCast]
  exact Nat.ne_of_gt (Nat.div_pos fits positive)

theorem leadingPlace_le (b : Binary) : b.leadingPlace ≤ b.top * 30103 / 100000 + 1 := by
  unfold leadingPlace top
  dsimp only
  split
  · exact Int.le_refl _
  · split <;> omega

/-- Nothing is what only nothing rounds from. -/
theorem roundsFrom_zero (nonzero : b.mantissa ≠ 0) (place : Int) : b.roundsFrom 0 place = false := by
  have low : b.compare (4 * b.mantissa - if b.boundary then 1 else 2) 0 place = .gt := by
    unfold compare
    dsimp only
    rw [Nat.zero_mul, Nat.compare_eq_gt]
    refine Nat.mul_pos ?_ ?_
    · split <;> omega
    · rw [Nat.shiftLeft_eq]
      exact Nat.mul_pos (tenTo_pos _) (Nat.two_pow_pos _)
  unfold roundsFrom
  rw [low]
  split <;> rfl

theorem onGrid?_coefficient_ne_zero (nonzero : b.mantissa ≠ 0) (grid : b.onGrid? place = some found) :
    found.coefficient ≠ 0 := by
  unfold onGrid? at grid
  dsimp only at grid
  split at grid
  · next taken =>
    obtain rfl := Option.some.inj grid
    intro none
    rw [show b.floorAt place = 0 from none, roundsFrom_zero nonzero] at taken
    cases taken
  · split at grid
    · obtain rfl := Option.some.inj grid
      exact Nat.succ_ne_zero _
    · cases grid

theorem search_coefficient (nonzero : b.mantissa ≠ 0)
    (last : b.floorAt (leading - (digits + more : Nat)) ≠ 0 ∨ leading ≤ (digits + more : Nat)) :
    (b.search leading more digits).coefficient ≠ 0 ∨ (b.search leading more digits).exponent ≤ 0 := by
  induction more generalizing digits with
  | zero => exact last.imp id fun low => by simp only [search]; omega
  | succ more ih =>
    unfold search
    split
    · next found => exact .inl (onGrid?_coefficient_ne_zero nonzero found)
    · rw [← Nat.succ_add_eq_add_succ] at last
      exact ih last

theorem reduce_coefficient {s : Scaled} (fuel : Nat) (sound : s.coefficient ≠ 0 ∨ s.exponent ≤ 0) :
    (Scaled.reduce fuel s).coefficient ≠ 0 ∨ (Scaled.reduce fuel s).exponent ≤ 0 := by
  induction fuel generalizing s with
  | zero => exact sound
  | succ fuel ih =>
    unfold Scaled.reduce
    split
    · next zeros =>
      refine ih (.inl ?_)
      simp only
      omega
    · exact sound

theorem shortest_coefficient (reach : b.top < 2000) :
    b.shortest.coefficient ≠ 0 ∨ b.shortest.exponent ≤ 0 := by
  unfold shortest
  split
  · exact .inr (Int.le_refl 0)
  · next nonzero =>
    refine reduce_coefficient 20 (search_coefficient nonzero ?_)
    by_cases small : b.leadingPlace ≤ (0 + 17 : Nat)
    · exact .inr small
    · left
      obtain ⟨power, place⟩ := Int.eq_ofNat_of_zero_le (a := b.leadingPlace - (0 + 17 : Nat)) (by omega)
      have below := b.leadingPlace_le
      rw [place]
      exact floorAt_ne_zero nonzero (by omega)

/-- The number is below a power of ten. -/
def Below (b : Binary) (limit : Nat) : Prop :=
  b.mantissa * 2 ^ b.exponent.toNat < tenTo limit * 2 ^ (-b.exponent).toNat

theorem floorAt_lt {limit : Nat} (below : b.Below limit) (coarse : place ≤ limit) :
    b.floorAt place < tenTo (limit - place).toNat := by
  have powers : tenTo (limit - place).toNat * tenTo place.toNat = tenTo limit * tenTo (-place).toNat := by
    unfold tenTo
    rw [Nat.pow_eq, Nat.pow_eq, Nat.pow_eq, Nat.pow_eq, ← Nat.pow_add, ← Nat.pow_add]
    congr 1
    omega
  unfold floorAt
  rw [Nat.shiftLeft_eq, Nat.shiftLeft_eq,
    Nat.div_lt_iff_lt_mul (Nat.mul_pos (tenTo_pos _) (Nat.two_pow_pos _))]
  calc
    b.mantissa * (tenTo (-place).toNat * 2 ^ b.exponent.toNat) =
        b.mantissa * 2 ^ b.exponent.toNat * tenTo (-place).toNat := by ring
    _ < tenTo limit * 2 ^ (-b.exponent).toNat * tenTo (-place).toNat :=
      Nat.mul_lt_mul_of_pos_right below (tenTo_pos _)
    _ = tenTo limit * tenTo (-place).toNat * 2 ^ (-b.exponent).toNat := by ring
    _ = tenTo (limit - place).toNat * (tenTo place.toNat * 2 ^ (-b.exponent).toNat) := by
      rw [← powers]
      ring

theorem reduce_within {s : Scaled} {limit : Nat} (within : s.Within limit) (fuel : Nat) :
    (Scaled.reduce fuel s).Within limit := by
  induction fuel generalizing s with
  | zero => exact within
  | succ fuel ih =>
    unfold Scaled.reduce
    split
    · next zeros =>
      obtain ⟨coarse, small⟩ := within
      by_cases last : s.exponent = limit
      · have one : tenTo (limit - s.exponent).toNat = 1 := by
          rw [last, Int.sub_self]
          rfl
        omega
      · have more : (limit - s.exponent).toNat = (limit - (s.exponent + 1)).toNat + 1 := by omega
        rw [more, tenTo, Nat.pow_eq, Nat.pow_succ] at small
        refine ih ⟨by simp only; omega, ?_⟩
        simp only [tenTo, Nat.pow_eq]
        omega
    · exact within

theorem onGrid?_within {limit : Nat} (below : b.Below limit) (coarse : place ≤ limit)
    (grid : b.onGrid? place = some found) : found.Within limit := by
  have low := b.floorAt_lt below coarse
  unfold onGrid? at grid
  dsimp only at grid
  split at grid
  · obtain rfl := Option.some.inj grid
    exact ⟨coarse, Nat.le_of_lt low⟩
  · split at grid
    · obtain rfl := Option.some.inj grid
      exact ⟨coarse, low⟩
    · cases grid

theorem search_within {limit : Nat} (below : b.Below limit) (coarse : leading ≤ limit) :
    (b.search leading more digits).Within limit := by
  have fine : leading - digits ≤ limit := by omega
  induction more generalizing digits with
  | zero => exact ⟨fine, Nat.le_of_lt (b.floorAt_lt below fine)⟩
  | succ more ih =>
    unfold search
    split
    · next found => exact onGrid?_within below fine found
    · exact ih (by omega)

theorem shortest_within {limit : Nat} (below : b.Below limit) (coarse : b.leadingPlace ≤ limit) :
    b.shortest.Within limit := by
  unfold shortest
  split
  · exact ⟨Int.natCast_nonneg limit, Nat.zero_le _⟩
  · exact reduce_within (search_within below coarse) 20

end Binary

namespace Layout

variable {layout : Layout} {bits : Nat} {negative : Bool} {b : Binary}

/-- The largest exponent of a finite number. -/
def highest (layout : Layout) : Int :=
  (1 <<< layout.exponent : Nat) - (1 <<< (layout.exponent - 1) : Nat) - layout.fraction - 1

theorem classify_finite (wide : 2 ≤ layout.exponent)
    (finite : layout.classify bits = .finite negative b) :
    b.mantissa < 2 ^ (layout.fraction + 1) ∧ b.exponent ≤ layout.highest := by
  have exponents : 4 ≤ 1 <<< layout.exponent := by
    rw [Nat.shiftLeft_eq, Nat.one_mul]
    exact Nat.pow_le_pow_right Nat.two_pos wide
  have fraction : bits % (1 <<< layout.fraction) < 2 ^ layout.fraction := by
    rw [Nat.shiftLeft_eq, Nat.one_mul]
    exact Nat.mod_lt _ (Nat.two_pow_pos _)
  have exponent : (bits >>> layout.fraction) % (1 <<< layout.exponent) < 1 <<< layout.exponent :=
    Nat.mod_lt _ (by omega)
  have implicit : 1 <<< layout.fraction = 2 ^ layout.fraction := by
    rw [Nat.shiftLeft_eq, Nat.one_mul]
  unfold classify at finite
  dsimp only at finite
  rw [Nat.pow_succ]
  unfold highest
  split at finite
  · split at finite <;> cases finite
  · split at finite
    · cases finite
      exact ⟨by simp only; omega, by simp only; omega⟩
    · cases finite
      exact ⟨by simp only; omega, by simp only; omega⟩

theorem top_le (wide : 2 ≤ layout.exponent) (finite : layout.classify bits = .finite negative b) :
    b.top ≤ layout.fraction + layout.highest := by
  obtain ⟨mantissa, exponent⟩ := classify_finite wide finite
  have leading : b.mantissa.log2 ≤ layout.fraction := by
    by_cases none : b.mantissa = 0
    · rw [none]
      exact Nat.zero_le _
    · exact Nat.le_of_lt_succ ((Nat.log2_lt none).mpr mantissa)
  unfold Binary.top
  omega

/-- The formats whose numbers are not out of reach. -/
structure Usual (layout : Layout) : Prop where
  wide : 2 ≤ layout.exponent
  low : layout.fraction + layout.highest < 2000

theorem usual_single : Layout.single.Usual := ⟨by decide, by decide⟩

theorem usual_double : Layout.double.Usual := ⟨by decide, by decide⟩

theorem Usual.shortest_coefficient (usual : layout.Usual)
    (finite : layout.classify bits = .finite negative b) :
    b.shortest.coefficient ≠ 0 ∨ b.shortest.exponent ≤ 0 :=
  b.shortest_coefficient (Int.lt_of_le_of_lt (top_le usual.wide finite) usual.low)

/-- A finite number of 32 bits is below the 39th power of ten. -/
theorem shortest_single (finite : Layout.single.classify bits = .finite negative b) :
    b.shortest.Within 39 := by
  have leading := top_le usual_single.wide finite
  obtain ⟨mantissa, exponent⟩ := classify_finite usual_single.wide finite
  have highest : Layout.single.highest = 104 := by decide
  have fraction : Layout.single.fraction = 23 := rfl
  rw [highest] at leading exponent
  rw [fraction] at leading mantissa
  have bits : 2 ^ 24 * 2 ^ 104 ≤ tenTo 39 := by decide +kernel
  refine Binary.shortest_within ?_ ?_
  · calc
      b.mantissa * 2 ^ b.exponent.toNat < 2 ^ (23 + 1) * 2 ^ b.exponent.toNat :=
        Nat.mul_lt_mul_of_pos_right mantissa (Nat.two_pow_pos _)
      _ ≤ 2 ^ (23 + 1) * 2 ^ 104 :=
        Nat.mul_le_mul_left _ (Nat.pow_le_pow_right Nat.two_pos (by omega))
      _ ≤ tenTo 39 := bits
      _ ≤ tenTo 39 * 2 ^ (-b.exponent).toNat := Nat.le_mul_of_pos_right _ (Nat.two_pow_pos _)
  · have place := b.leadingPlace_le
    omega

end Layout

end CodeAtlas.Decimal
