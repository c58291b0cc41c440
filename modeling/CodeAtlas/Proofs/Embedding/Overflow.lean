import CodeAtlas.Proofs.Embedding.Magnitude

namespace CodeAtlas.Embedding

open Float.Model
open Float.Model.UnpackedFloat

variable {format : Format} {high high' : Int} {f g : UnpackedFloat} {sign : Sign}

theorem two_pow_exponentBits (format : Format) :
    2 ^ format.exponentBits = 2 * format.exponentBias + 2 := by
  have positive : 0 < 2 ^ (format.exponentBits - 1) := Nat.two_pow_pos _
  have split : format.exponentBits = format.exponentBits - 1 + 1 := by
    have some := format.he
    omega
  have double : 2 ^ format.exponentBits = 2 ^ (format.exponentBits - 1) * 2 := by
    rw [split, Nat.pow_succ]
    rfl
  unfold Format.exponentBias
  omega

theorem minExponent_eq (format : Format) :
    format.minExponent = 1 - format.exponentBias - format.mantissaBitsWithoutImplicit := by
  have capacity := two_pow_exponentBits format
  have positive : 0 < 2 ^ (format.exponentBits - 1) := Nat.two_pow_pos _
  have power : (2 : Int) ^ (format.exponentBits - 1) = (2 ^ (format.exponentBits - 1) : Nat) := by
    push_cast
    rfl
  unfold Format.minExponent Format.mantissaBits Format.exponentBias
  rw [power]
  omega

/-- A finite number whose mantissa and exponent fit in, and whose leading bit stands at `high` at
most. -/
def Reaches (format : Format) (high : Int) : UnpackedFloat → Prop
  | .zero _ => True
  | .finite _ m e _ => m < 2 ^ format.mantissaBits ∧ format.minExponent ≤ e ∧ totalExponent m e ≤ high
  | _ => False

theorem Reaches.mono (reaches : Reaches format high f) (le : high ≤ high') :
    Reaches format high' f := by
  cases f with
  | zero s => trivial
  | infinity s => exact reaches.elim
  | notANumber => exact reaches.elim
  | finite s m e positive => exact ⟨reaches.1, reaches.2.1, Int.le_trans reaches.2.2 le⟩

theorem Reaches.isInf_eq (reaches : Reaches format high f) : f.isInf = false := by
  cases f with
  | infinity s => exact reaches.elim
  | _ => rfl

theorem reaches_roundWithAccuracy (sign : Sign) {m : Nat} {e : Int} (accuracy : Accuracy)
    (below : totalExponent m e < high) (least : format.minExponent + 1 < high) :
    Reaches format high (roundWithAccuracy format sign m e accuracy) := by
  obtain ⟨r, _, up, rounded⟩ := exists_rounded_in format sign m e accuracy
  obtain ⟨_, _, first⟩ := placesOff_bounds format m e
  obtain ⟨small, place, second⟩ := placesOff_bounds format r (e + placesOff format m e)
  rw [rounded]
  by_cases none : r / 2 ^ placesOff format r (e + placesOff format m e) = 0
  · rw [ofMantissa, dif_pos none]
    trivial
  · rw [ofMantissa, dif_neg none]
    refine ⟨small, place, ?_⟩
    have carried : r.log2 ≤ (m / 2 ^ placesOff format m e).log2 + 1 :=
      Nat.le_trans (log2_mono up) (log2_succ_le _)
    simp only [totalExponent] at *
    omega

section Stored

/-- The largest exponent is that of infinity. -/
theorem ne_allOnes {exponent : BitVec format.exponentBits}
    (small : exponent.toNat + 1 < 2 ^ format.exponentBits) : exponent ≠ -1#_ := by
  intro same
  rw [same, BitVec.neg_one_eq_allOnes, BitVec.toNat_allOnes] at small
  omega

variable {bits : BitVec format.numBits}

theorem reaches_subnormal (zero : unpackExponent bits = 0#_)
    (top : unpackMantissa bits ≠ 0#_ →
      totalExponent (unpackMantissa bits).toNat format.minExponent ≤ high) :
    Reaches format high (UnpackedFloat.unpack format bits) := by
  have capacity := two_pow_exponentBits format
  have least := minExponent_eq format
  have width : format.mantissaBits = 1 + format.mantissaBitsWithoutImplicit := rfl
  have bound := (unpackMantissa bits).isLt
  have none : (unpackExponent bits).toNat = 0 := by rw [zero, BitVec.toNat_zero]
  unfold UnpackedFloat.unpack
  dsimp only
  rw [if_neg (ne_allOnes (by omega)), if_pos zero]
  by_cases empty : unpackMantissa bits = 0#_
  · rw [dif_pos empty]
    trivial
  · rw [dif_neg empty]
    have place : ((unpackExponent bits).toNat : Int) -
        (format.exponentBias + format.mantissaBitsWithoutImplicit) + 1 = format.minExponent := by
      omega
    refine ⟨?_, Int.le_of_eq place.symm, place ▸ top empty⟩
    rw [width, Nat.pow_add]
    omega

theorem reaches_normal (some : 1 ≤ (unpackExponent bits).toNat)
    (finite : (unpackExponent bits).toNat + 1 < 2 ^ format.exponentBits)
    (top : totalExponent (2 ^ format.mantissaBitsWithoutImplicit + (unpackMantissa bits).toNat)
      ((unpackExponent bits).toNat -
        (format.exponentBias + format.mantissaBitsWithoutImplicit)) ≤ high) :
    Reaches format high (UnpackedFloat.unpack format bits) := by
  have least := minExponent_eq format
  have width : format.mantissaBits = 1 + format.mantissaBitsWithoutImplicit := rfl
  have bound := (unpackMantissa bits).isLt
  have normal : unpackExponent bits ≠ 0#_ := by
    intro zero
    rw [zero, BitVec.toNat_zero] at some
    omega
  unfold UnpackedFloat.unpack
  dsimp only
  rw [if_neg (ne_allOnes finite), if_neg normal]
  refine ⟨?_, by omega, by rw [toNat_implicit]; exact top⟩
  rw [toNat_implicit, width, Nat.pow_add]
  omega

/-- A number that is stored has its leading bit no higher. -/
theorem Reaches.stored (reaches : Reaches format high f)
    (room : high + format.mantissaBitsWithoutImplicit ≤ format.exponentBias) :
    Reaches format high (UnpackedFloat.unpack format (UnpackedFloat.pack format f)) := by
  have capacity := two_pow_exponentBits format
  have least := minExponent_eq format
  have width : format.mantissaBits = 1 + format.mantissaBitsWithoutImplicit := rfl
  cases f with
  | infinity s => exact reaches.elim
  | notANumber => exact reaches.elim
  | zero s =>
    refine reaches_subnormal unpackExponent_packComponents fun some => ?_
    exact absurd unpackMantissa_packComponents some
  | finite s m e positive =>
    obtain ⟨bits, place, top⟩ := reaches
    simp only [totalExponent] at top
    unfold UnpackedFloat.pack
    dsimp only
    rw [if_neg (by omega)]
    split
    · next full =>
      have value : (BitVec.ofNat format.exponentBits
          (e + format.exponentBias + format.mantissaBitsWithoutImplicit).toNat).toNat =
            (e + format.exponentBias + format.mantissaBitsWithoutImplicit).toNat := by
        rw [BitVec.toNat_ofNat, Nat.mod_eq_of_lt (by omega)]
      have low := Nat.log2_self_le (Nat.ne_of_gt positive)
      have leading : m.log2 = format.mantissaBitsWithoutImplicit := by omega
      rw [leading] at low
      rw [width, Nat.pow_add] at bits
      have mantissa : 2 ^ format.mantissaBitsWithoutImplicit +
          (BitVec.ofNat format.mantissaBitsWithoutImplicit m).toNat = m := by
        rw [BitVec.toNat_ofNat, Nat.mod_eq_sub_mod low, Nat.mod_eq_of_lt (by omega)]
        omega
      refine reaches_normal ?_ ?_ ?_
      · rw [unpackExponent_packComponents]
        omega
      · rw [unpackExponent_packComponents]
        omega
      · rw [unpackMantissa_packComponents, unpackExponent_packComponents, mantissa, value]
        simp only [totalExponent]
        omega
    · have less : (BitVec.ofNat format.mantissaBitsWithoutImplicit m).toNat ≤ m := by
        rw [BitVec.toNat_ofNat]
        exact Nat.mod_le ..
      have lower := log2_mono less
      refine reaches_subnormal unpackExponent_packComponents fun _ => ?_
      rw [unpackMantissa_packComponents]
      simp only [totalExponent]
      omega

end Stored

theorem Reaches.mul (left : Reaches format high f) (right : Reaches format high' g)
    (least : format.minExponent < high + high') :
    Reaches format (high + high' + 1) (UnpackedFloat.mul format f g) := by
  cases f with
  | infinity s => exact left.elim
  | notANumber => exact left.elim
  | zero s =>
    cases g with
    | infinity t => exact right.elim
    | notANumber => exact right.elim
    | zero t => trivial
    | finite t m e positive => trivial
  | finite s m e positive =>
    cases g with
    | infinity t => exact right.elim
    | notANumber => exact right.elim
    | zero t => trivial
    | finite t n e' positive' =>
      have both := totalExponent_mul m n e e'
      have first := left.2.2
      have second := right.2.2
      exact reaches_roundWithAccuracy _ .exact (by omega) (by omega)

theorem reaches_ofNat {n : Nat} {k : Nat} (small : n < 2 ^ k) (below : k < high)
    (least : format.minExponent + 1 < high) : Reaches format high (UnpackedFloat.ofNat format n) := by
  unfold UnpackedFloat.ofNat UnpackedFloat.ofInt UnpackedFloat.normalize
  split
  · next negative =>
    have order := Int.compare_eq_lt.mp negative
    omega
  · trivial
  · next positive =>
    have order := Int.compare_eq_gt.mp positive
    have bits : n.log2 < k := (Nat.log2_lt (by omega)).mpr small
    refine reaches_roundWithAccuracy _ .exact ?_ least
    rw [Int.toNat_natCast]
    simp only [totalExponent, log2_shiftLeft (m := n) (by omega)]
    omega

end CodeAtlas.Embedding
