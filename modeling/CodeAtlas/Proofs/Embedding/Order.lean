import CodeAtlas.Proofs.Embedding.Magnitude

namespace CodeAtlas.Embedding

open Float.Model
open Float.Model.UnpackedFloat

/-- On which side of the numbers bits stand that are no number; 0 for numbers. -/
def side (bits : UInt32) : Int :=
  if (Float32.ofBits bits).isNaN then if bits.toNat < 2 ^ 31 then 1 else -1 else 0

/-- The total order of numbers in 32 bits: they stand as they compare, but `-0.0` stands below `0.0`.
What is no number stands below all numbers if it is negative, and else above them; among themselves
such bits count outwards. -/
def Below (x y : UInt32) : Prop :=
  side x < side y ∨
    (side x = 0 ∧ side y = 0 ∧ (Float32.ofBits x < Float32.ofBits y ∨
      Float32.ofBits x = -0.0 ∧ Float32.ofBits y = 0.0)) ∨
    (side x = 1 ∧ side y = 1 ∧ x < y) ∨ (side x = -1 ∧ side y = -1 ∧ y < x)

instance (x y : UInt32) : Decidable (Below x y) := inferInstanceAs (Decidable (_ ∨ _ ∨ _ ∨ _))

section Steps

/-- How many numbers lie between zero and the number, itself counted. -/
def steps : UnpackedFloat → Nat
  | .zero _ => 0
  | .finite _ m e _ => (e + 149).toNat * 2 ^ 23 + m
  | .infinity _ => 255 * 2 ^ 23
  | .notANumber => 0

@[simp] theorem steps_zero (s : Sign) : steps (.zero s) = 0 := rfl

@[simp] theorem steps_infinity (s : Sign) : steps (.infinity s) = 255 * 2 ^ 23 := rfl

def signOf : UnpackedFloat → Sign
  | .zero s => s
  | .finite s _ _ _ => s
  | .infinity s => s
  | .notANumber => .negative

/-- The number is stored in 32 bits: all bits of its mantissa are there unless its exponent is the
least one. -/
def IsStored : UnpackedFloat → Prop
  | .finite _ m e _ => -149 ≤ e ∧ e < 105 ∧ m < 2 ^ 24 ∧ (-149 < e → 2 ^ 23 ≤ m)
  | .notANumber => False
  | _ => True

/-- The place of a number; the negative zero stands just below the positive one. -/
def placeOf (f : UnpackedFloat) : Int :=
  match signOf f with
  | .positive => steps f
  | .negative => -1 - steps f

variable {sign : Sign} {exponent : BitVec 8} {mantissa : BitVec 23}

/-- The bits of a number count its steps. -/
theorem ofParts_stored (number : (ofParts sign exponent mantissa).isNaN = false) :
    IsStored (ofParts sign exponent mantissa) ∧ signOf (ofParts sign exponent mantissa) = sign ∧
      steps (ofParts sign exponent mantissa) = exponent.toNat * 2 ^ 23 + mantissa.toNat := by
  have few := mantissa.isLt
  by_cases largest : exponent = -1#8
  · subst largest
    by_cases none : mantissa = 0#23
    · subst none
      exact ⟨trivial, rfl, rfl⟩
    · rw [ofParts, if_pos rfl, if_neg none] at number
      cases number
  · by_cases least : exponent = 0#8
    · subst least
      by_cases none : mantissa = 0#23
      · subst none
        exact ⟨trivial, rfl, rfl⟩
      · rw [ofParts_subnormal none]
        have normal : ¬ (-149 : Int) < -149 := by decide
        exact ⟨⟨by decide, by decide, by omega, fun more => absurd more normal⟩, rfl, rfl⟩
    · rw [ofParts_normal largest least]
      have some : exponent.toNat ≠ 0 := fun zero => least (BitVec.eq_of_toNat_eq zero)
      have most : exponent.toNat ≠ 255 := fun all => largest (BitVec.eq_of_toNat_eq all)
      have bits := exponent.isLt
      refine ⟨⟨by omega, by omega, by omega, fun _ => by omega⟩, rfl, ?_⟩
      dsimp only [steps]
      omega

variable {f g : UnpackedFloat} {m m' : Nat} {e e' : Int} {s s' : Sign} {pos : 0 < m} {pos' : 0 < m'}

theorem IsStored.steps_bounds (stored : IsStored (.finite s m e pos)) :
    0 < steps (.finite s m e pos) ∧ steps (.finite s m e pos) < 255 * 2 ^ 23 := by
  obtain ⟨least, largest, most, _⟩ := stored
  dsimp only [steps]
  omega

theorem IsStored.steps_le (stored : IsStored f) : steps f ≤ 255 * 2 ^ 23 := by
  cases f with
  | notANumber => exact stored.elim
  | zero s => exact Nat.zero_le _
  | infinity s => exact Nat.le_refl _
  | finite s m e pos => exact Nat.le_of_lt stored.steps_bounds.2

/-- What is stored is what is read. -/
theorem IsStored.stored_eq (isStored : IsStored f) : stored f = f := by
  cases f with
  | notANumber => exact isStored.elim
  | zero s => exact stored_zero s
  | infinity s => exact stored_infinity s
  | finite s m e pos =>
    obtain ⟨least, largest, most, full⟩ := isStored
    by_cases few : m < 2 ^ 23
    · obtain rfl : e = -149 := by omega
      exact stored_subnormal pos few largest
    · have bits : m.log2 = 23 :=
        (Nat.log2_eq_iff (Nat.ne_of_gt pos)).mpr ⟨Nat.le_of_not_lt few, most⟩
      exact stored_normal pos bits least largest

/-- Numbers of one sign stand by their exponents, those with the same exponent by their mantissas. -/
theorem then_eq_lt_iff (left : IsStored (.finite s m e pos))
    (right : IsStored (.finite s' m' e' pos')) :
    (compare e e').then (compare m m') = .lt ↔
      steps (.finite s m e pos) < steps (.finite s' m' e' pos') := by
  obtain ⟨least, _, most, full⟩ := left
  obtain ⟨least', _, most', full'⟩ := right
  rw [Ordering.then_eq_lt, Int.compare_eq_lt, compare_eq_iff_eq, Nat.compare_eq_lt]
  dsimp only [steps]
  omega

/-- Numbers compare by their places, but the two zeros are equal. The signs decide unless they are the
same; if they are, the steps count up or down. -/
theorem compare_eq_lt_iff (left : IsStored f) (right : IsStored g) :
    f.compare g = some .lt ↔
      placeOf f < placeOf g ∧ ¬ (f = .zero .negative ∧ g = .zero .positive) := by
  cases f with
  | notANumber => exact left.elim
  | zero s | infinity s =>
    cases g with
    | notANumber => exact right.elim
    | zero s' | infinity s' =>
      cases s <;> cases s' <;> dsimp only [UnpackedFloat.compare, placeOf, signOf] <;> simp [compare]
    | finite s' m' e' pos' =>
      rw [and_iff_left nofun]
      have bounds := right.steps_bounds
      -- Only the bounds of the steps count here, so the number itself is set aside.
      cases s <;> cases s' <;>
        dsimp only [UnpackedFloat.compare, placeOf, signOf, steps_zero, steps_infinity]
        <;> generalize steps (.finite _ m' e' pos') = k at bounds ⊢ <;> simp <;> omega
  | finite s m e pos =>
    rw [and_iff_left nofun]
    have bounds := left.steps_bounds
    cases g with
    | notANumber => exact right.elim
    | zero s' | infinity s' =>
      cases s <;> cases s' <;>
        dsimp only [UnpackedFloat.compare, placeOf, signOf, steps_zero, steps_infinity]
        <;> generalize steps (.finite _ m e pos) = k at bounds ⊢ <;> simp <;> omega
    | finite s' m' e' pos' =>
      have up := then_eq_lt_iff left right
      have down := then_eq_lt_iff right left
      have flipped : ((compare e e').then (compare m m')).swap =
          (compare e' e).then (compare m' m) := by
        rw [Ordering.swap_then, Int.compare_swap, Nat.compare_swap]
      cases s <;> cases s' <;> dsimp only [UnpackedFloat.compare, placeOf, signOf]
        <;> generalize steps (.finite _ m e pos) = k at bounds up down ⊢
        <;> generalize steps (.finite _ m' e' pos') = k' at up down ⊢
        <;> simp [flipped, up, down] <;> omega

theorem of_ofParts_isNaN (special : (ofParts sign exponent mantissa).isNaN = true) :
    exponent = -1#8 ∧ mantissa ≠ 0#23 := by
  by_cases largest : exponent = -1#8
  · refine ⟨largest, ?_⟩
    rintro rfl
    subst largest
    exact nomatch (show false = true from special)
  · by_cases least : exponent = 0#8
    · subst least
      by_cases none : mantissa = 0#23
      · subst none
        exact nomatch (show false = true from special)
      · rw [ofParts_subnormal none] at special
        cases special
    · rw [ofParts_normal largest least] at special
      cases special

end Steps

section Bits

variable {x y : UInt32}

/-- The parts of a number, each at its place in the bits. -/
theorem exists_parts (x : UInt32) : ∃ sign exponent mantissa,
    UnpackedFloat.unpack .binary32 x.toBitVec = ofParts sign exponent mantissa ∧
      x.toNat = sign.toBitVec.toNat * 2 ^ 31 + (exponent.toNat * 2 ^ 23 + mantissa.toNat) := by
  let bits : BitVec Format.binary32.numBits := x.toBitVec
  refine ⟨.ofBitVec (unpackSign bits), unpackExponent bits, unpackMantissa bits, rfl, ?_⟩
  have sign : (unpackSign bits).toNat = (x.toNat >>> 31) % 2 ^ 1 := BitVec.extractLsb_toNat ..
  have exponent : (unpackExponent bits).toNat = (x.toNat >>> 23) % 2 ^ 8 :=
    BitVec.extractLsb_toNat ..
  have mantissa : (unpackMantissa bits).toNat = (x.toNat >>> 0) % 2 ^ 23 :=
    BitVec.extractLsb_toNat ..
  have same : ∀ bit : BitVec 1, (Sign.ofBitVec bit).toBitVec = bit := by decide
  have small := x.toNat_lt
  rw [same, sign, exponent, mantissa]
  simp only [Nat.shiftRight_eq_div_pow]
  omega

theorem unpack_ofBits (x : UInt32) :
    (Float32.ofBits x).toModel.unpack = UnpackedFloat.unpack .binary32 x.toBitVec := by
  have read : (Float32.ofBits x).toModel.unpack =
      stored (UnpackedFloat.unpack .binary32 x.toBitVec) := rfl
  obtain ⟨sign, exponent, mantissa, parts, _⟩ := exists_parts x
  rw [read, parts]
  cases special : (ofParts sign exponent mantissa).isNaN with
  | false => exact (ofParts_stored special).1.stored_eq
  | true =>
    obtain ⟨rfl, some⟩ := of_ofParts_isNaN special
    rw [ofParts, if_pos rfl, if_neg some]
    rfl

theorem lt_iff_compare {x y : Float32} :
    x < y ↔ x.toModel.unpack.compare y.toModel.unpack = some .lt := by
  show decide (x.toModel < y.toModel) = true ↔ _
  rw [decide_eq_true_iff]
  exact beq_iff_eq

theorem toInt_maxValue : Int32.maxValue.toInt = 2 ^ 31 - 1 := rfl

theorem rank_injective (same : rank x = rank y) : x = y := by
  refine UInt32.toNat_inj.mp ?_
  rw [rank, rank, toInt_maxValue] at same
  split at same <;> split at same <;> omega

/-- Bits of one sign stand as they count, outwards from zero. -/
theorem rank_lt_rank_of_sign (same : x.toNat < 2 ^ 31 ↔ y.toNat < 2 ^ 31) :
    rank x < rank y ↔ if x.toNat < 2 ^ 31 then x < y else y < x := by
  rw [rank, rank, toInt_maxValue, UInt32.lt_iff_toNat_lt, UInt32.lt_iff_toNat_lt]
  split <;> split <;> split <;> omega

/-- The rank of a number is its place. -/
theorem rank_eq_placeOf (number : (Float32.ofBits x).isNaN = false) :
    rank x = placeOf (Float32.ofBits x).toModel.unpack ∧
      IsStored (Float32.ofBits x).toModel.unpack := by
  obtain ⟨sign, exponent, mantissa, parts, bits⟩ := exists_parts x
  rw [← unpack_ofBits] at parts
  have known : (ofParts sign exponent mantissa).isNaN = false := parts ▸ number
  obtain ⟨stored, signed, counted⟩ := ofParts_stored known
  have few := mantissa.isLt
  have wide := exponent.isLt
  rw [rank, bits, toInt_maxValue, parts, placeOf, signed, counted]
  refine ⟨?_, stored⟩
  cases sign with
  | positive =>
    simp [Sign.toBitVec]
    omega
  | negative =>
    simp [Sign.toBitVec]
    omega

theorem rank_bounds (number : (Float32.ofBits x).isNaN = false) :
    -1 - 255 * 2 ^ 23 ≤ rank x ∧ rank x ≤ 255 * 2 ^ 23 := by
  obtain ⟨place, stored⟩ := rank_eq_placeOf number
  have bound := stored.steps_le
  rw [place, placeOf]
  split <;> omega

/-- What is no number has the largest exponent and something in its mantissa. -/
theorem rank_of_isNaN (special : (Float32.ofBits x).isNaN = true) :
    if x.toNat < 2 ^ 31 then 255 * 2 ^ 23 < rank x else rank x < -1 - 255 * 2 ^ 23 := by
  obtain ⟨sign, exponent, mantissa, parts, bits⟩ := exists_parts x
  rw [← unpack_ofBits] at parts
  have known : (ofParts sign exponent mantissa).isNaN = true := parts ▸ special
  obtain ⟨rfl, some⟩ := of_ofParts_isNaN known
  have few := mantissa.isLt
  have nonzero := pos_toNat some
  have largest : (-1#8).toNat = 255 := rfl
  have one := sign.toBitVec.isLt
  rw [largest] at bits
  rw [rank, toInt_maxValue]
  split <;> split <;> omega

/-- Numbers stand between what is no number of either sign. -/
theorem side_cases (x : UInt32) :
    (side x = 0 ∧ (Float32.ofBits x).isNaN = false ∧
      -1 - 255 * 2 ^ 23 ≤ rank x ∧ rank x ≤ 255 * 2 ^ 23) ∨
    (side x = 1 ∧ x.toNat < 2 ^ 31 ∧ 255 * 2 ^ 23 < rank x) ∨
    (side x = -1 ∧ ¬ x.toNat < 2 ^ 31 ∧ rank x < -1 - 255 * 2 ^ 23) := by
  cases special : (Float32.ofBits x).isNaN with
  | false => exact .inl ⟨if_neg (ne_true_of_eq_false special), rfl, rank_bounds special⟩
  | true =>
    have beyond := rank_of_isNaN special
    rw [show side x = _ from if_pos special]
    split at beyond
    · next positive => exact .inr (.inl ⟨if_pos positive, positive, beyond⟩)
    · next negative => exact .inr (.inr ⟨if_neg negative, negative, beyond⟩)

/-- Of two numbers the lesser one has the lower rank; so has the negative zero beside the positive
one. -/
theorem rank_lt_rank_of_number (left : (Float32.ofBits x).isNaN = false)
    (right : (Float32.ofBits y).isNaN = false) :
    rank x < rank y ↔ Float32.ofBits x < Float32.ofBits y ∨
      Float32.ofBits x = -0.0 ∧ Float32.ofBits y = 0.0 := by
  obtain ⟨place, stored⟩ := rank_eq_placeOf left
  obtain ⟨place', stored'⟩ := rank_eq_placeOf right
  have negative : (Float32.ofBits x).toModel.unpack = .zero .negative ↔ Float32.ofBits x = -0.0 := by
    refine ⟨fun zero => ?_, fun same => by rw [same]; rfl⟩
    obtain rfl : x = 0x80000000 := rank_injective (by rw [place, zero]; decide)
    rfl
  have positive : (Float32.ofBits y).toModel.unpack = .zero .positive ↔ Float32.ofBits y = 0.0 := by
    refine ⟨fun zero => ?_, fun same => by rw [same]; rfl⟩
    obtain rfl : y = 0 := rank_injective (by rw [place', zero]; decide)
    rfl
  rw [lt_iff_compare, compare_eq_lt_iff stored stored', negative, positive, ← place, ← place']
  constructor
  · intro above
    by_cases zeros : Float32.ofBits x = -0.0 ∧ Float32.ofBits y = 0.0
    · exact .inr zeros
    · exact .inl ⟨above, zeros⟩
  · rintro (⟨above, _⟩ | ⟨negativeZero, zero⟩)
    · exact above
    · rw [place, place', negativeZero, zero]
      decide

/-- The order of ranks is the total order of numbers. -/
theorem rank_lt_rank_iff : rank x < rank y ↔ Below x y := by
  unfold Below
  rcases side_cases x with ⟨left, number, bounds⟩ | ⟨left, positive, beyond⟩ | ⟨left, negative, beyond⟩
    <;> rcases side_cases y with
      ⟨right, number', bounds'⟩ | ⟨right, positive', beyond'⟩ | ⟨right, negative', beyond'⟩
    <;> rw [left, right]
  case inl.inl => simp [rank_lt_rank_of_number number number']
  case inr.inl.inr.inl =>
    rw [rank_lt_rank_of_sign (iff_of_true positive positive'), if_pos positive]
    simp
  case inr.inr.inr.inr =>
    rw [rank_lt_rank_of_sign (iff_of_false negative negative'), if_neg negative]
    simp
  -- On different sides the bounds decide.
  all_goals
    simp
    omega

end Bits

end CodeAtlas.Embedding
