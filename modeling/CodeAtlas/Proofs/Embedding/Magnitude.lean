import CodeAtlas.Proofs.Embedding.Rounding

namespace CodeAtlas.Embedding

open Float.Model
open Float.Model.UnpackedFloat

section Stored

variable {sign : Sign} {high low : Int}

theorem sign_packComponents (exponent : BitVec 8) (mantissa : BitVec 23) :
    Sign.ofBitVec (unpackSign (packComponents .binary32 sign exponent mantissa)) = sign := by
  have bit : unpackSign (packComponents .binary32 sign exponent mantissa) = sign.toBitVec := by
    refine BitVec.eq_of_getLsbD_eq fun i hi => ?_
    obtain rfl : i = 0 := by omega
    show ((packComponents .binary32 sign exponent mantissa).extractLsb 31 31).getLsbD 0 = _
    simp only [packComponents, BitVec.getLsbD_extractLsb, BitVec.getLsbD_append]
    simp
  rw [bit]
  cases sign <;> rfl

/-- What is read of a number that is stored. -/
def stored (f : UnpackedFloat) : UnpackedFloat :=
  UnpackedFloat.unpack .binary32 (UnpackedFloat.pack .binary32 f)

theorem stored_zero (sign : Sign) : stored (.zero sign) = .zero sign := by
  cases sign <;> rfl

theorem stored_infinity (sign : Sign) : stored (.infinity sign) = .infinity sign := by
  cases sign <;> rfl

theorem pos_toNat {mantissa : BitVec 23} (some : mantissa ≠ 0#23) : 0 < mantissa.toNat :=
  Nat.pos_of_ne_zero fun zero => some (BitVec.eq_of_toNat_eq zero)

/-- The highest bit of a mantissa is not stored. -/
theorem toNat_implicit {width : Nat} (mantissa : BitVec width) :
    (1#1 ++ mantissa).toNat = 2 ^ width + mantissa.toNat := by
  have one : (1#1).toNat = 1 := rfl
  rw [BitVec.toNat_append, one, ← Nat.shiftLeft_add_eq_or_of_lt mantissa.isLt, Nat.shiftLeft_eq,
    Nat.one_mul]

theorem finite_congr {m m' : Nat} {e e' : Int} {positive : 0 < m} {positive' : 0 < m'}
    (mantissa : m = m') (exponent : e = e') :
    UnpackedFloat.finite sign m e positive = .finite sign m' e' positive' := by
  subst mantissa exponent
  rfl

/-- The number that has its parts stored like this. -/
def ofParts (sign : Sign) (exponent : BitVec 8) (mantissa : BitVec 23) : UnpackedFloat :=
  if exponent = -1#8 then if mantissa = 0#23 then .infinity sign else .notANumber
  else if exponent = 0#8 then
    if some : mantissa = 0#23 then .zero sign
    else .finite sign mantissa.toNat (exponent.toNat - 150 + 1) (pos_toNat some)
  else .finite sign (1#1 ++ mantissa).toNat (exponent.toNat - 150) (by rw [toNat_implicit]; omega)

theorem ofParts_subnormal {mantissa : BitVec 23} (some : mantissa ≠ 0#23) :
    ofParts sign 0#8 mantissa = .finite sign mantissa.toNat (-149) (pos_toNat some) := by
  rw [ofParts, if_neg (by decide), if_pos rfl, dif_neg some]
  rfl

theorem ofParts_normal {exponent : BitVec 8} (finite : exponent ≠ -1#8) (normal : exponent ≠ 0#8)
    (mantissa : BitVec 23) : ofParts sign exponent mantissa =
      .finite sign (2 ^ 23 + mantissa.toNat) (exponent.toNat - 150) (by omega) := by
  rw [ofParts, if_neg finite, if_neg normal]
  exact finite_congr (toNat_implicit mantissa) rfl

theorem unpack_packComponents (exponent : BitVec 8) (mantissa : BitVec 23) :
    UnpackedFloat.unpack .binary32 (packComponents .binary32 sign exponent mantissa) =
      ofParts sign exponent mantissa := by
  have parts (bits : BitVec Format.binary32.numBits) : UnpackedFloat.unpack .binary32 bits =
      ofParts (.ofBitVec (unpackSign bits)) (unpackExponent bits) (unpackMantissa bits) := rfl
  rw [parts, unpackMantissa_packComponents, unpackExponent_packComponents, sign_packComponents]

variable {m : Nat} {e : Int}

theorem pack_finite (positive : 0 < m) :
    UnpackedFloat.pack .binary32 (.finite sign m e positive) =
      if 256 ≤ (e + 127 + 23).toNat + 1 then packedInfinity .binary32 sign
      else if m.log2 + 1 = 24 then
        packComponents .binary32 sign (BitVec.ofNat 8 (e + 127 + 23).toNat) (BitVec.ofNat 23 m)
      else packComponents .binary32 sign 0#8 (BitVec.ofNat 23 m) := rfl

theorem stored_infinite (positive : 0 < m) (large : 105 ≤ e) :
    stored (.finite sign m e positive) = .infinity sign := by
  unfold stored
  rw [pack_finite, if_pos (by omega)]
  exact stored_infinity sign

theorem stored_normal (positive : 0 < m) (bits : m.log2 = 23) (least : -149 ≤ e) (small : e < 105) :
    stored (.finite sign m e positive) = .finite sign m e positive := by
  have exponent : (BitVec.ofNat 8 (e + 127 + 23).toNat).toNat = (e + 127 + 23).toNat := by
    rw [BitVec.toNat_ofNat, Nat.mod_eq_of_lt (by omega)]
  have finite : BitVec.ofNat 8 (e + 127 + 23).toNat ≠ -1#8 := by
    intro same
    have value : (e + 127 + 23).toNat = 255 := by rw [← exponent, same]; rfl
    omega
  have normal : BitVec.ofNat 8 (e + 127 + 23).toNat ≠ 0#8 := by
    intro same
    have value : (e + 127 + 23).toNat = 0 := by rw [← exponent, same]; rfl
    omega
  have most := lt_two_pow_log2 m
  have least := Nat.log2_self_le (Nat.ne_of_gt positive)
  rw [bits] at most least
  have mantissa : 2 ^ 23 + (BitVec.ofNat 23 m).toNat = m := by
    rw [BitVec.toNat_ofNat]
    omega
  unfold stored
  rw [pack_finite, if_neg (by omega), if_pos (by omega), unpack_packComponents,
    ofParts_normal finite normal]
  exact finite_congr mantissa (by omega)

theorem stored_subnormal (positive : 0 < m) (few : m < 2 ^ 23) (small : e < 105) :
    stored (.finite sign m e positive) = .finite sign m (-149) positive := by
  have bits := log2_le_of_lt few
  have mantissa : (BitVec.ofNat 23 m).toNat = m := by
    rw [BitVec.toNat_ofNat, Nat.mod_eq_of_lt few]
  have some : BitVec.ofNat 23 m ≠ 0#23 := by
    intro same
    have value : m = 0 := by rw [← mantissa, same]; rfl
    omega
  unfold stored
  rw [pack_finite, if_neg (by omega), if_neg (by omega), unpack_packComponents,
    ofParts_subnormal some]
  exact finite_congr mantissa rfl

/-- A number that is stored keeps its sign, and its leading bit moves no higher. -/
theorem Fits.stored {f : UnpackedFloat} (fits : Fits sign high f) (finite : high ≤ 105) :
    Fits sign high (stored f) := by
  cases f with
  | zero s => rw [stored_zero]; exact fits
  | infinity s => exact fits.elim
  | notANumber => exact fits.elim
  | finite s m e positive =>
    obtain ⟨rfl, bits, least, top⟩ := fits
    simp only [totalExponent] at top
    by_cases few : m < 2 ^ 23
    · rw [stored_subnormal positive few (by omega)]
      refine ⟨rfl, bits, by decide, ?_⟩
      simp only [totalExponent]
      omega
    · have full : 23 ≤ m.log2 := (Nat.le_log2 (Nat.ne_of_gt positive)).mpr (by omega)
      have width : m.log2 = 23 := Nat.le_antisymm (log2_le_of_lt bits) full
      rw [stored_normal positive width least (by omega)]
      exact ⟨rfl, bits, least, top⟩

theorem Full.stored {f : UnpackedFloat} (full : Full sign low f) :
    Full sign low (stored f) ∨ stored f = .infinity sign := by
  cases f with
  | zero s => exact full.elim
  | infinity s => exact full.elim
  | notANumber => exact full.elim
  | finite s m e positive =>
    obtain ⟨rfl, many, bits, least, top⟩ := full
    have full : 23 ≤ m.log2 := (Nat.le_log2 (Nat.ne_of_gt positive)).mpr many
    have width : m.log2 = 23 := Nat.le_antisymm (log2_le_of_lt bits) full
    by_cases small : e < 105
    · rw [stored_normal positive width least small]
      exact .inl ⟨rfl, many, bits, least, top⟩
    · exact .inr (stored_infinite positive (by omega))

end Stored

section Operations

variable {sign sign' : Sign} {high high' low : Int} {f g : UnpackedFloat}

theorem fits_round {m : Nat} {e : Int} (positive : 0 < m) (below : totalExponent m e < high)
    (least : -148 < high) : Fits sign high (UnpackedFloat.round .binary32 sign m e) := by
  refine fits_roundWithAccuracy sign _ _ .exact ?_ least
  simp only [totalExponent, log2_shiftLeft positive] at below ⊢
  omega

/-- A number that is finite, whatever its sign. -/
def Within (high : Int) (f : UnpackedFloat) : Prop := ∃ sign, Fits sign high f

theorem Fits.mono (fits : Fits sign high f) (le : high ≤ high') : Fits sign high' f := by
  cases f with
  | zero s => exact fits
  | infinity s => exact fits.elim
  | notANumber => exact fits.elim
  | finite s m e positive =>
    obtain ⟨same, bits, place, top⟩ := fits
    exact ⟨same, bits, place, Int.le_trans top le⟩

theorem Full.mono {low' : Int} (full : Full sign low f) (le : low' ≤ low) :
    Full sign low' f := by
  cases f with
  | zero s => exact full.elim
  | infinity s => exact full.elim
  | notANumber => exact full.elim
  | finite s m e positive =>
    obtain ⟨same, many, bits, place, top⟩ := full
    exact ⟨same, many, bits, place, Int.le_trans le top⟩

theorem Within.mono (within : Within high f) (le : high ≤ high') : Within high' f := by
  obtain ⟨sign, fits⟩ := within
  exact ⟨sign, fits.mono le⟩

theorem Within.stored (within : Within high f) (finite : high ≤ 105) :
    Within high (stored f) := by
  obtain ⟨sign, fits⟩ := within
  exact ⟨sign, fits.stored finite⟩

theorem within_normalize {n e : Int} {k : Nat} (zeroSign : Sign) (small : n.natAbs < 2 ^ k)
    (below : k + e < high) (least : -148 < high) :
    Within high (UnpackedFloat.normalize .binary32 n e zeroSign) := by
  have top : ∀ m : Nat, 0 < m → m < 2 ^ k → totalExponent m e < high := by
    intro m positive bound
    have bits : m.log2 < k := (Nat.log2_lt (Nat.ne_of_gt positive)).mpr bound
    simp only [totalExponent]
    omega
  unfold UnpackedFloat.normalize
  split
  · next negative =>
    have order := Int.compare_eq_lt.mp negative
    exact ⟨_, fits_round (by omega) (top _ (by omega) (by omega)) least⟩
  · exact ⟨zeroSign, rfl⟩
  · next positive =>
    have order := Int.compare_eq_gt.mp positive
    exact ⟨_, fits_round (by omega) (top _ (by omega) (by omega)) least⟩

theorem natAbs_apply (sign : Sign) (n : Nat) : (sign.apply n).natAbs = n := by
  cases sign
  · exact Int.natAbs_neg n
  · rfl

/-- A mantissa whose exponent is lowered. -/
theorem shiftLeft_lt {m : Nat} {e place : Int} (positive : 0 < m) (top : totalExponent m e ≤ high)
    (le : place ≤ e) : m <<< (e - place).toNat < 2 ^ (high - place).toNat := by
  have most := lt_two_pow_log2 (m <<< (e - place).toNat)
  rw [log2_shiftLeft positive] at most
  simp only [totalExponent] at top
  exact Nat.lt_of_lt_of_le most (Nat.pow_le_pow_right (by decide) (by omega))

theorem Within.sub (left : Within high f) (right : Within high g) (least : -150 < high) :
    Within (high + 2) (UnpackedFloat.sub .binary32 f g) := by
  have more : high ≤ high + 2 := by omega
  obtain ⟨s, fits⟩ := left
  obtain ⟨t, fits'⟩ := right
  cases f with
  | infinity s => exact fits.elim
  | notANumber => exact fits.elim
  | zero s =>
    cases g with
    | infinity t => exact fits'.elim
    | notANumber => exact fits'.elim
    | zero t => cases s <;> cases t <;> exact ⟨_, rfl⟩
    | finite t m e positive =>
      obtain ⟨_, rest⟩ := fits'
      exact Within.mono ⟨-t, rfl, rest⟩ more
  | finite s m e positive =>
    cases g with
    | infinity t => exact fits'.elim
    | notANumber => exact fits'.elim
    | zero t => exact Within.mono ⟨_, fits⟩ more
    | finite t n e' positive' =>
      obtain ⟨_, _, place, top⟩ := fits
      obtain ⟨_, _, place', top'⟩ := fits'
      have first := shiftLeft_lt positive top (Int.min_le_left e e')
      have second := shiftLeft_lt positive' top' (Int.min_le_right e e')
      have first' := natAbs_apply s (m <<< (e - min e e').toNat)
      have second' := natAbs_apply t (n <<< (e' - min e e').toNat)
      have small : (s.apply (m <<< (e - min e e').toNat : Nat) -
          t.apply (n <<< (e' - min e e').toNat : Nat)).natAbs <
            2 ^ ((high - min e e').toNat + 1) := by
        rw [Nat.pow_succ]
        omega
      refine within_normalize _ small ?_ (by omega)
      simp only [totalExponent] at top top'
      omega

theorem totalExponent_mul (m n : Nat) (e e' : Int) :
    totalExponent (m * n) (e + e') ≤ totalExponent m e + totalExponent n e' := by
  have bound : m * n < 2 ^ (m.log2 + n.log2 + 1 + 1) := by
    have split : m.log2 + n.log2 + 1 + 1 = m.log2 + 1 + (n.log2 + 1) := by omega
    rw [split, Nat.pow_add]
    exact Nat.mul_lt_mul'' (lt_two_pow_log2 m) (lt_two_pow_log2 n)
  have bits := log2_le_of_lt bound
  simp only [totalExponent]
  omega

theorem Fits.mul (left : Fits sign high f) (right : Fits sign' high' g)
    (least : -149 < high + high') :
    Fits (sign * sign') (high + high' + 1) (UnpackedFloat.mul .binary32 f g) := by
  cases f with
  | infinity s => exact left.elim
  | notANumber => exact left.elim
  | zero s =>
    cases g with
    | infinity t => exact right.elim
    | notANumber => exact right.elim
    | zero t => exact congr (congrArg _ left) right
    | finite t m e positive => exact congr (congrArg _ left) right.1
  | finite s m e positive =>
    cases g with
    | infinity t => exact right.elim
    | notANumber => exact right.elim
    | zero t => exact congr (congrArg _ left.1) right
    | finite t n e' positive' =>
      obtain ⟨rfl, _, _, top⟩ := left
      obtain ⟨rfl, _, _, top'⟩ := right
      have both := totalExponent_mul m n e e'
      exact fits_roundWithAccuracy _ _ _ .exact (by omega) (by omega)

theorem Within.mul (left : Within high f) (right : Within high' g) (least : -149 < high + high') :
    Within (high + high' + 1) (UnpackedFloat.mul .binary32 f g) := by
  obtain ⟨s, fits⟩ := left
  obtain ⟨t, fits'⟩ := right
  exact ⟨s * t, fits.mul fits' least⟩

/-- The square of a number is not negative. -/
theorem Within.square (within : Within high f) (least : -75 < high) :
    Fits .positive (high + high + 1) (UnpackedFloat.mul .binary32 f f) := by
  obtain ⟨s, fits⟩ := within
  have positive : s * s = .positive := by cases s <;> rfl
  rw [← positive]
  exact fits.mul fits (by omega)

theorem log2_div_le {m n : Nat} (positive : 0 < n) : (m / n).log2 ≤ m.log2 - n.log2 := by
  refine log2_le_of_lt ?_
  rw [Nat.div_lt_iff_lt_mul positive]
  have low := Nat.log2_self_le (Nat.ne_of_gt positive)
  have high := lt_two_pow_log2 m
  refine Nat.lt_of_lt_of_le high (Nat.le_trans ?_ (Nat.mul_le_mul_left _ low))
  rw [← Nat.pow_add]
  exact Nat.pow_le_pow_right (by decide) (by omega)

theorem Within.div (left : Within high f) (right : Full .positive low g)
    (least : -149 ≤ high - low) :
    Within (high - low + 2) (UnpackedFloat.div .binary32 f g) := by
  obtain ⟨s, fits⟩ := left
  cases g with
  | infinity t => exact right.elim
  | notANumber => exact right.elim
  | zero t => exact right.elim
  | finite t n e' positive' =>
    obtain ⟨rfl, _, _, _, bottom⟩ := right
    cases f with
    | infinity s => exact fits.elim
    | notANumber => exact fits.elim
    | zero s => exact ⟨_, rfl⟩
    | finite s m e positive =>
      obtain ⟨_, _, _, top⟩ := fits
      refine ⟨_, fits_roundWithAccuracy _ _ _ _ ?_ (by omega)⟩
      simp only [targetExponent_binary32]
      generalize aim : min (e - e') (max (totalExponent m e - totalExponent n e' - 24) (-149)) = place
      have bits := log2_div_le (m := m <<< (e - e' - place).toNat) positive'
      rw [log2_shiftLeft positive] at bits
      simp only [totalExponent] at *
      omega

end Operations

end CodeAtlas.Embedding
