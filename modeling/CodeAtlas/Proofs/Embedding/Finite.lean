import CodeAtlas.Embedding.Hash
import CodeAtlas.Proofs.Embedding.Magnitude

namespace CodeAtlas.Embedding

open Float.Model
open Float.Model.UnpackedFloat

/-- A zero, a positive number that fits in, or positive infinity. -/
def Nonnegative : UnpackedFloat → Prop
  | .zero _ => True
  | .infinity s => s = .positive
  | .finite s m e _ => s = .positive ∧ m < 2 ^ 24 ∧ -149 ≤ e
  | .notANumber => False

section Nonnegative

variable {f g : UnpackedFloat}

theorem Fits.nonnegative {high : Int} (fits : Fits .positive high f) : Nonnegative f := by
  cases f with
  | zero s => trivial
  | infinity s => exact fits.elim
  | notANumber => exact fits.elim
  | finite s m e positive =>
    obtain ⟨same, bits, place, _⟩ := fits
    exact ⟨same, bits, place⟩

theorem Nonnegative.stored (nonnegative : Nonnegative f) : Nonnegative (stored f) := by
  cases f with
  | zero s => rw [stored_zero]; trivial
  | infinity s => rw [stored_infinity]; exact nonnegative
  | notANumber => exact nonnegative.elim
  | finite s m e positive =>
    obtain ⟨rfl, bits, place⟩ := nonnegative
    by_cases small : e < 105
    · by_cases few : m < 2 ^ 23
      · rw [stored_subnormal positive few small]
        exact ⟨rfl, bits, by decide⟩
      · have full : 23 ≤ m.log2 := (Nat.le_log2 (Nat.ne_of_gt positive)).mpr (by omega)
        rw [stored_normal positive (Nat.le_antisymm (log2_le_of_lt bits) full) place small]
        exact ⟨rfl, bits, place⟩
    · rw [stored_infinite positive (by omega)]
      rfl

theorem nonnegative_normalize {n : Int} (positive : 0 < n) (e : Int) (zeroSign : Sign) :
    Nonnegative (UnpackedFloat.normalize .binary32 n e zeroSign) := by
  have fits : Fits .positive (max (totalExponent n.toNat e) (-148) + 1)
      (UnpackedFloat.round .binary32 .positive n.toNat e) :=
    fits_round (by omega) (by omega) (by omega)
  rw [UnpackedFloat.normalize, Int.compare_eq_gt.mpr positive]
  exact fits.nonnegative

theorem Nonnegative.add (left : Nonnegative f) (right : Nonnegative g) :
    Nonnegative (UnpackedFloat.add .binary32 f g) := by
  cases f with
  | notANumber => exact left.elim
  | infinity s =>
    obtain rfl := left
    cases g with
    | notANumber => exact right.elim
    | infinity t => obtain rfl := right; rfl
    | zero t => rfl
    | finite t n e' positive' => rfl
  | zero s =>
    cases g with
    | notANumber => exact right.elim
    | infinity t => exact right
    | zero t => cases s <;> cases t <;> trivial
    | finite t n e' positive' => exact right
  | finite s m e positive =>
    cases g with
    | notANumber => exact right.elim
    | infinity t => exact right
    | zero t => exact left
    | finite t n e' positive' =>
      obtain ⟨rfl, _⟩ := left
      obtain ⟨rfl, _⟩ := right
      have more : 0 < m <<< (e - min e e').toNat := Nat.shiftLeft_pos_iff.mpr positive
      exact nonnegative_normalize (Int.add_pos_of_pos_of_nonneg (Int.natCast_pos.mpr more)
        (Int.natCast_nonneg _)) _ _

/-- What lengths of vectors are: those that are positive are not small. -/
def IsLength (f : UnpackedFloat) : Prop :=
  (∃ sign, f = .zero sign) ∨ f = .infinity .positive ∨ Full .positive (-74) f

theorem IsLength.stored (length : IsLength f) : IsLength (stored f) := by
  rcases length with ⟨sign, rfl⟩ | rfl | full
  · exact .inl ⟨sign, stored_zero sign⟩
  · exact .inr (.inl (stored_infinity .positive))
  · exact .inr full.stored.symm

theorem two_pow_le_sqrt {m k : Nat} (positive : 0 < m) (half : 2 * k ≤ m.log2) :
    2 ^ k ≤ Nat.sqrt m := by
  rw [Nat.le_sqrt, ← Nat.pow_add]
  exact Nat.le_trans (Nat.pow_le_pow_right (by decide) (by omega))
    (Nat.log2_self_le (Nat.ne_of_gt positive))

theorem Nonnegative.sqrt (nonnegative : Nonnegative f) :
    IsLength (UnpackedFloat.sqrt .binary32 f) := by
  cases f with
  | notANumber => exact nonnegative.elim
  | zero s => exact .inl ⟨s, rfl⟩
  | infinity s =>
    obtain rfl := nonnegative
    exact .inr (.inl rfl)
  | finite s m e positive =>
    obtain ⟨rfl, _, place⟩ := nonnegative
    refine .inr (.inr ?_)
    let rooted := sqrtCore .binary32 m e
    show Full .positive (-74) (roundWithAccuracy .binary32 .positive rooted.1 rooted.2.1 rooted.2.2)
    have halved : ∀ n : Int, n.ediv 2 = n / 2 := fun _ => rfl
    simp only [rooted, sqrtCore, targetExponent_binary32, halved]
    generalize aim : min (e / 2) (max ((totalExponent m e + 1) / 2 - 24) (-149)) = place'
    simp only [totalExponent] at aim
    have bits := log2_shiftLeft positive (e - 2 * place').toNat
    have many : 0 < m <<< (e - 2 * place').toNat := Nat.shiftLeft_pos_iff.mpr positive
    have root := two_pow_le_sqrt many (k := (m.log2 + (e - 2 * place').toNat) / 2) (by omega)
    have some : Nat.sqrt (m <<< (e - 2 * place').toNat) ≠ 0 :=
      Nat.ne_of_gt (Nat.lt_of_lt_of_le (Nat.two_pow_pos _) root)
    have top := (Nat.le_log2 some).mpr root
    have full : 2 ^ 23 ≤ Nat.sqrt (m <<< (e - 2 * place').toNat) :=
      Nat.le_trans (Nat.pow_le_pow_right (by decide) (by omega)) root
    have large : -74 ≤ totalExponent (Nat.sqrt (m <<< (e - 2 * place').toNat)) place' := by
      simp only [totalExponent]
      omega
    exact (full_roundWithAccuracy .positive _ full (by omega)).mono large

end Nonnegative

section Vector

variable {high : Int} {x y : Float32} {a : Embedding}

/-- What the bits of a number stand for. -/
abbrev unpacked (x : Float32) : UnpackedFloat := x.toModel.unpack

theorem unpacked_add (x y : Float32) :
    unpacked (x + y) = stored (UnpackedFloat.add .binary32 (unpacked x) (unpacked y)) := rfl

theorem unpacked_sub (x y : Float32) :
    unpacked (x - y) = stored (UnpackedFloat.sub .binary32 (unpacked x) (unpacked y)) := rfl

theorem unpacked_mul (x y : Float32) :
    unpacked (x * y) = stored (UnpackedFloat.mul .binary32 (unpacked x) (unpacked y)) := rfl

theorem unpacked_div (x y : Float32) :
    unpacked (x / y) = stored (UnpackedFloat.div .binary32 (unpacked x) (unpacked y)) := rfl

theorem unpacked_sqrt (x : Float32) :
    unpacked x.sqrt = stored (UnpackedFloat.sqrt .binary32 (unpacked x)) := rfl

theorem unpacked_one : unpacked 1.0 = .finite .positive 8388608 (-23) (by decide) := by rfl

theorem unpacked_two : unpacked 2.0 = .finite .positive 8388608 (-22) (by decide) := by rfl

theorem unpacked_negZero : unpacked (-0.0) = .zero .negative := by rfl

/-- The bits of 1, with some more below the exponent. -/
theorem toBitVec_ones {m : UInt32} (few : m.toNat < 2 ^ 23) :
    (0x3f800000 ||| m).toBitVec =
      packComponents .binary32 .positive 127#8 (BitVec.ofNat 23 m.toNat) := by
  have high : Sign.toBitVec .positive ++ 127#8 = 127#9 := rfl
  have low : (BitVec.ofNat 23 m.toNat).toNat = m.toNat := by
    rw [BitVec.toNat_ofNat, Nat.mod_eq_of_lt few]
  refine BitVec.eq_of_toNat_eq ?_
  rw [packComponents, high, BitVec.toNat_append, low]
  exact UInt32.toNat_or ..

theorem within_ofBits {m : UInt32} (few : m.toNat < 2 ^ 23) :
    Within 1 (unpacked (Float32.ofBits (0x3f800000 ||| m))) := by
  have value : unpacked (Float32.ofBits (0x3f800000 ||| m)) =
      stored (UnpackedFloat.unpack .binary32 (0x3f800000 ||| m).toBitVec) := rfl
  have bound := (BitVec.ofNat 23 m.toNat).isLt
  have bits := log2_le_of_lt (m := 2 ^ 23 + (BitVec.ofNat 23 m.toNat).toNat) (k := 23) (by omega)
  have place : ((127#8).toNat : Int) = 127 := rfl
  rw [value, toBitVec_ones few, unpack_packComponents, ofParts_normal (by decide) (by decide)]
  refine Within.stored ⟨.positive, rfl, by omega, by decide, ?_⟩ (by decide)
  simp only [totalExponent]
  omega

theorem within_one : Within 1 (unpacked 1.0) := by
  rw [unpacked_one]
  exact ⟨.positive, rfl, by decide, by decide, by decide +kernel⟩

theorem within_two : Within 2 (unpacked 2.0) := by
  rw [unpacked_two]
  exact ⟨.positive, rfl, by decide, by decide, by decide +kernel⟩

theorem within_sub (left : Within high (unpacked x)) (right : Within high (unpacked y))
    (least : -150 < high) (finite : high + 2 ≤ 105) : Within (high + 2) (unpacked (x - y)) := by
  rw [unpacked_sub]
  exact (left.sub right least).stored finite

theorem within_mul {high' : Int} (left : Within high (unpacked x)) (right : Within high' (unpacked y))
    (least : -149 < high + high') (finite : high + high' + 1 ≤ 105) :
    Within (high + high' + 1) (unpacked (x * y)) := by
  rw [unpacked_mul]
  exact (left.mul right least).stored finite

theorem within_component (word : UInt64) : Within 8 (unpacked (component word)) := by
  have few : ((word >>> 32).toUInt32 >>> 9).toNat < 2 ^ 23 := by
    have bound := (word >>> 32).toUInt32.toNat_lt
    have shifted : ((word >>> 32).toUInt32 >>> 9).toNat = (word >>> 32).toUInt32.toNat >>> 9 := rfl
    rw [shifted, Nat.shiftRight_eq_div_pow]
    omega
  have unit := within_sub (within_ofBits few) within_one (by decide) (by decide)
  have double := within_mul unit within_two (by decide) (by decide)
  exact within_sub double (within_one.mono (by decide)) (by decide) (by decide)

theorem nonnegative_foldl {xs : List Float32} (all : ∀ x ∈ xs, Nonnegative (unpacked x))
    (start : Nonnegative (unpacked y)) : Nonnegative (unpacked (xs.foldl (· + ·) y)) := by
  induction xs generalizing y with
  | nil => exact start
  | cons x xs ih =>
    obtain ⟨first, rest⟩ := List.forall_mem_cons.mp all
    have sum : Nonnegative (unpacked (y + x)) := by
      rw [unpacked_add]
      exact (start.add first).stored
    exact ih rest sum

theorem mem_squares (member : x ∈ List.zipWith (· * ·) a a) : ∃ y ∈ a, x = y * y := by
  rw [List.zipWith_self] at member
  obtain ⟨y, listed, rfl⟩ := List.mem_map.mp member
  exact ⟨y, listed, rfl⟩

theorem isLength_norm (small : ∀ x ∈ a, Within 8 (unpacked x)) : IsLength (unpacked (norm a)) := by
  have squares : ∀ x ∈ List.zipWith (· * ·) a a, Nonnegative (unpacked x) := by
    intro x member
    obtain ⟨y, listed, rfl⟩ := mem_squares member
    rw [unpacked_mul]
    exact ((small y listed).square (by decide)).nonnegative.stored
  have start : Nonnegative (unpacked (-0.0)) := by rw [unpacked_negZero]; trivial
  have sum := nonnegative_foldl squares start
  have length : unpacked (norm a) = stored (UnpackedFloat.sqrt .binary32
      (unpacked ((List.zipWith (· * ·) a a).foldl (· + ·) (-0.0)))) := unpacked_sqrt _
  rw [length]
  exact sum.sqrt.stored

theorem isFinite_of_within (within : Within high (unpacked x)) : x.isFinite = true := by
  have same : x.isFinite = (unpacked x).isFinite := rfl
  obtain ⟨sign, fits⟩ := within
  rw [same]
  cases found : unpacked x with
  | zero s => rfl
  | finite s m e positive => rfl
  | infinity s => rw [found] at fits; exact fits.elim
  | notANumber => rw [found] at fits; exact fits.elim

/-- A vector whose numbers are small has finite numbers once its length is 1. -/
theorem isFinite_of_mem_normalize (small : ∀ x ∈ a, Within 8 (unpacked x))
    (member : x ∈ normalize a) : x.isFinite = true := by
  unfold normalize at member
  dsimp only at member
  split at member
  · exact isFinite_of_within (small x member)
  · next nonzero =>
    obtain ⟨y, listed, rfl⟩ := List.mem_map.mp member
    have within := small y listed
    have quotient : ∃ high ≤ 105,
        Within high (UnpackedFloat.div .binary32 (unpacked y) (unpacked (norm a))) := by
      rcases isLength_norm small with ⟨sign, zero⟩ | infinite | full
      · have equal : (norm a == 0) = UnpackedFloat.beq (unpacked (norm a)) (unpacked 0) := rfl
        rw [equal, zero] at nonzero
        exact absurd rfl nonzero
      · obtain ⟨sign, fits⟩ := within
        refine ⟨8, by decide, ?_⟩
        rw [infinite]
        cases found : unpacked y with
        | zero s => exact ⟨_, rfl⟩
        | finite s m e positive => exact ⟨_, rfl⟩
        | infinity s => rw [found] at fits; exact fits.elim
        | notANumber => rw [found] at fits; exact fits.elim
      · exact ⟨_, by decide, within.div full (by decide)⟩
    obtain ⟨high, finite, quotient⟩ := quotient
    have stored : Within high (unpacked (y / norm a)) := by
      rw [unpacked_div]
      exact quotient.stored finite
    exact isFinite_of_within stored

/-- All numbers in the vector of a text are finite. -/
theorem isFinite_of_mem_hash {dimension : Nat} {text : String} (member : x ∈ hash dimension text) :
    x.isFinite = true := by
  refine isFinite_of_mem_normalize (fun y listed => ?_) member
  obtain ⟨i, _, rfl⟩ := List.mem_map.mp listed
  exact within_component _

end Vector

end CodeAtlas.Embedding
