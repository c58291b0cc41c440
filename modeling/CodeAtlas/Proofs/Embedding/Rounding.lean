import CodeAtlas.Embedding.Basic
import Mathlib.Tactic.Ring

namespace CodeAtlas.Embedding

open Float.Model
open Float.Model.UnpackedFloat

theorem targetExponent_binary32 (top : Int) :
    Format.binary32.targetExponent top = max (top - 24) (-149) := rfl

theorem lt_two_pow_log2 (m : Nat) : m < 2 ^ (m.log2 + 1) := Nat.lt_log2_self

theorem log2_le_of_lt {m k : Nat} (small : m < 2 ^ (k + 1)) : m.log2 ≤ k := by
  rcases Nat.eq_zero_or_pos m with rfl | positive
  · simp
  · exact Nat.lt_succ_iff.mp ((Nat.log2_lt (Nat.ne_of_gt positive)).mpr small)

theorem log2_mono {m n : Nat} (le : m ≤ n) : m.log2 ≤ n.log2 :=
  log2_le_of_lt (Nat.lt_of_le_of_lt le (lt_two_pow_log2 n))

theorem log2_succ_le (m : Nat) : (m + 1).log2 ≤ m.log2 + 1 := by
  have bound := lt_two_pow_log2 m
  exact log2_le_of_lt (by omega)

theorem log2_shiftLeft {m : Nat} (positive : 0 < m) (k : Nat) : (m <<< k).log2 = m.log2 + k := by
  rw [Nat.shiftLeft_eq, Nat.log2_eq_iff (Nat.ne_of_gt (Nat.mul_pos positive (Nat.two_pow_pos k)))]
  have low := Nat.log2_self_le (Nat.ne_of_gt positive)
  have high := lt_two_pow_log2 m
  constructor
  · rw [Nat.pow_add]
    exact Nat.mul_le_mul_right _ low
  · rw [Nat.add_right_comm, Nat.pow_add]
    exact Nat.mul_lt_mul_of_pos_right high (Nat.two_pow_pos k)

theorem log2_div_two_pow {m k : Nat} (enough : k ≤ m.log2) (positive : 0 < m) :
    (m / 2 ^ k).log2 = m.log2 - k := by
  have low := Nat.log2_self_le (Nat.ne_of_gt positive)
  have high := lt_two_pow_log2 m
  have split : m.log2 = m.log2 - k + k := by omega
  have least : 2 ^ (m.log2 - k) ≤ m / 2 ^ k := by
    rw [Nat.le_div_iff_mul_le (Nat.two_pow_pos k), ← Nat.pow_add, ← split]
    exact low
  rw [Nat.log2_eq_iff (Nat.ne_of_gt (Nat.lt_of_lt_of_le (Nat.two_pow_pos _) least))]
  refine ⟨least, ?_⟩
  rw [Nat.div_lt_iff_lt_mul (Nat.two_pow_pos k), ← Nat.pow_add]
  exact Nat.lt_of_lt_of_eq high (congrArg _ (by omega))

theorem shiftRight_mantissa (extended : ExtendedMantissa) (k : Nat) :
    (extended >>> k).mantissa = extended.mantissa / 2 ^ k := by
  induction k with
  | zero => exact (Nat.div_one _).symm
  | succ k ih =>
    have step : (extended >>> (k + 1)).mantissa = (extended >>> k).mantissa / 2 := rfl
    rw [step, ih, Nat.div_div_eq_div_mul, Nat.pow_succ]

theorem roundToNearestEven_bounds (m : Nat) (accuracy : Accuracy) :
    m ≤ accuracy.roundToNearestEven m ∧ accuracy.roundToNearestEven m ≤ m + 1 := by
  unfold Accuracy.roundToNearestEven
  split <;> omega

theorem mantissa_ofMantissaAndAccuracy (m : Nat) (accuracy : Accuracy) :
    (ExtendedMantissa.ofMantissaAndAccuracy m accuracy).mantissa = m := by
  cases accuracy with
  | exact => rfl
  | inexact order => cases order <;> rfl

section Formats

variable (format : Format)

/-- How many places a mantissa is shifted to have as few bits as the format has and an exponent that
is not too small. -/
def placesOff (m : Nat) (e : Int) : Nat :=
  (format.targetExponent (totalExponent m e) - e).toNat

theorem placesOff_eq (m : Nat) (e : Int) : placesOff format m e =
    (max ((m.log2 : Int) + 1 + e - format.mantissaBits) format.minExponent - e).toNat := rfl

theorem placesOff_bounds (m : Nat) (e : Int) :
    m / 2 ^ placesOff format m e < 2 ^ format.mantissaBits ∧
      format.minExponent ≤ e + placesOff format m e ∧
      totalExponent (m / 2 ^ placesOff format m e) (e + placesOff format m e) ≤
        max (totalExponent m e) (format.minExponent + 1) := by
  have shift := placesOff_eq format m e
  have some : 1 ≤ format.mantissaBits := Nat.le_add_right ..
  have small : m / 2 ^ placesOff format m e < 2 ^ format.mantissaBits := by
    rw [Nat.div_lt_iff_lt_mul (Nat.two_pow_pos _), ← Nat.pow_add]
    exact Nat.lt_of_lt_of_le (lt_two_pow_log2 m) (Nat.pow_le_pow_right (by decide) (by omega))
  refine ⟨small, by omega, ?_⟩
  simp only [totalExponent]
  rcases Nat.eq_zero_or_pos m with rfl | positive
  · simp at shift ⊢
    omega
  · by_cases enough : placesOff format m e ≤ m.log2
    · rw [log2_div_two_pow enough positive]
      omega
    · have none : m / 2 ^ placesOff format m e = 0 :=
        Nat.div_eq_of_lt (Nat.lt_of_lt_of_le (lt_two_pow_log2 m)
          (Nat.pow_le_pow_right (by decide) (by omega)))
      rw [none, Nat.log2_zero]
      omega

/-- The number with a mantissa that may be 0. -/
def ofMantissa (sign : Sign) (m : Nat) (e : Int) : UnpackedFloat :=
  if h : m = 0 then .zero sign else .finite sign m e (Nat.pos_of_ne_zero h)

/-- What rounding yields: the mantissa is shifted, goes up by one at most, and is shifted again. -/
theorem exists_rounded_in (sign : Sign) (m : Nat) (e : Int) (accuracy : Accuracy) :
    ∃ r, m / 2 ^ placesOff format m e ≤ r ∧ r ≤ m / 2 ^ placesOff format m e + 1 ∧
      roundWithAccuracy format sign m e accuracy =
        ofMantissa sign (r / 2 ^ placesOff format r (e + placesOff format m e))
          (e + placesOff format m e + placesOff format r (e + placesOff format m e)) := by
  obtain ⟨low, high⟩ := roundToNearestEven_bounds (m / 2 ^ placesOff format m e)
    ((ExtendedMantissa.ofMantissaAndAccuracy m accuracy) >>> placesOff format m e).accuracy
  refine ⟨_, low, high, ?_⟩
  let first := shiftToTargetExponent format m e accuracy
  let second := shiftToTargetExponent format first.1.roundedMantissa first.2 .exact
  have shifted : roundWithAccuracy format sign m e accuracy =
      ofMantissa sign second.1.mantissa second.2 := rfl
  rw [shifted]
  simp only [first, second, shiftToTargetExponent, shiftToExponent, shiftRight_mantissa,
    mantissa_ofMantissaAndAccuracy, ExtendedMantissa.roundedMantissa]
  rfl

end Formats

/-- How many places a mantissa is shifted to have 24 bits at most and an exponent that is not too
small. -/
def shiftOf (m : Nat) (e : Int) : Nat :=
  (Format.binary32.targetExponent (totalExponent m e) - e).toNat

theorem shiftOf_eq (m : Nat) (e : Int) :
    shiftOf m e = (max ((m.log2 : Int) + 1 + e - 24) (-149) - e).toNat := rfl

theorem shifted_bounds (m : Nat) (e : Int) :
    m / 2 ^ shiftOf m e < 2 ^ 24 ∧ -149 ≤ e + shiftOf m e ∧
      totalExponent (m / 2 ^ shiftOf m e) (e + shiftOf m e) ≤ max (totalExponent m e) (-148) :=
  placesOff_bounds .binary32 m e

/-- A mantissa of 24 bits or more keeps 24 of them. -/
theorem shifted_full {m : Nat} {e : Int} (full : 2 ^ 23 ≤ m) (large : -125 ≤ totalExponent m e) :
    2 ^ 23 ≤ m / 2 ^ shiftOf m e ∧
      totalExponent (m / 2 ^ shiftOf m e) (e + shiftOf m e) = totalExponent m e := by
  have shift := shiftOf_eq m e
  have positive : 0 < m := Nat.lt_of_lt_of_le (by decide) full
  have bits : 23 ≤ m.log2 := (Nat.le_log2 (Nat.ne_of_gt positive)).mpr full
  simp only [totalExponent] at large ⊢
  have kept := log2_div_two_pow (k := shiftOf m e) (by omega) positive
  have some : 0 < m / 2 ^ shiftOf m e :=
    Nat.div_pos (Nat.le_trans (Nat.pow_le_pow_right (by decide) (by omega))
      (Nat.log2_self_le (Nat.ne_of_gt positive))) (Nat.two_pow_pos _)
  constructor
  · exact (Nat.le_log2 (Nat.ne_of_gt some)).mp (by omega)
  · rw [kept]
    omega

/-- A number with the sign, and with a mantissa and an exponent that fit in; the leading bit stands
at `high` at most. -/
def Fits (sign : Sign) (high : Int) : UnpackedFloat → Prop
  | .zero s => s = sign
  | .finite s m e _ => s = sign ∧ m < 2 ^ 24 ∧ -149 ≤ e ∧ totalExponent m e ≤ high
  | _ => False

/-- A number with the sign and 24 bits; the leading bit stands at `low` at least. -/
def Full (sign : Sign) (low : Int) : UnpackedFloat → Prop
  | .finite s m e _ => s = sign ∧ 2 ^ 23 ≤ m ∧ m < 2 ^ 24 ∧ -149 ≤ e ∧ low ≤ totalExponent m e
  | _ => False

theorem exists_rounded (sign : Sign) (m : Nat) (e : Int) (accuracy : Accuracy) :
    ∃ r, m / 2 ^ shiftOf m e ≤ r ∧ r ≤ m / 2 ^ shiftOf m e + 1 ∧
      roundWithAccuracy .binary32 sign m e accuracy =
        ofMantissa sign (r / 2 ^ shiftOf r (e + shiftOf m e))
          (e + shiftOf m e + shiftOf r (e + shiftOf m e)) :=
  exists_rounded_in .binary32 sign m e accuracy

theorem fits_roundWithAccuracy (sign : Sign) (m : Nat) (e : Int) (accuracy : Accuracy) {high : Int}
    (below : totalExponent m e < high) (least : -148 < high) :
    Fits sign high (roundWithAccuracy .binary32 sign m e accuracy) := by
  obtain ⟨r, _, up, rounded⟩ := exists_rounded sign m e accuracy
  obtain ⟨_, _, first⟩ := shifted_bounds m e
  obtain ⟨small, place, second⟩ := shifted_bounds r (e + shiftOf m e)
  rw [rounded]
  by_cases none : r / 2 ^ shiftOf r (e + shiftOf m e) = 0
  · rw [ofMantissa, dif_pos none]
    rfl
  · rw [ofMantissa, dif_neg none]
    refine ⟨rfl, small, place, ?_⟩
    have carried : r.log2 ≤ (m / 2 ^ shiftOf m e).log2 + 1 :=
      Nat.le_trans (log2_mono up) (log2_succ_le _)
    simp only [totalExponent] at *
    omega

theorem full_roundWithAccuracy (sign : Sign) {m : Nat} {e : Int} (accuracy : Accuracy)
    (full : 2 ^ 23 ≤ m) (large : -125 ≤ totalExponent m e) :
    Full sign (totalExponent m e) (roundWithAccuracy .binary32 sign m e accuracy) := by
  obtain ⟨r, down, _, rounded⟩ := exists_rounded sign m e accuracy
  obtain ⟨some, first⟩ := shifted_full full large
  have kept : totalExponent m e ≤ totalExponent r (e + shiftOf m e) := by
    have bits := log2_mono down
    simp only [totalExponent] at *
    omega
  obtain ⟨more, second⟩ := shifted_full (Nat.le_trans some down) (Int.le_trans large kept)
  obtain ⟨small, place, _⟩ := shifted_bounds r (e + shiftOf m e)
  rw [rounded, ofMantissa, dif_neg (by omega)]
  exact ⟨rfl, more, small, place, by omega⟩

end CodeAtlas.Embedding
