import CodeAtlas.Json.Decode
import CodeAtlas.Proofs.Embedding.Overflow
import CodeAtlas.Proofs.Json.Legible

namespace CodeAtlas

namespace Embedding

open Float.Model
open Float.Model.UnpackedFloat

instance (format : Format) (high : Int) : DecidablePred (Reaches format high)
  | .zero _ => inferInstanceAs (Decidable True)
  | .finite _ _ _ _ => inferInstanceAs (Decidable (_ ∧ _))
  | .infinity _ => inferInstanceAs (Decidable False)
  | .notANumber => inferInstanceAs (Decidable False)

theorem reaches_toFloat (n : UInt64) : Reaches .binary64 65 n.toFloat.toModel.unpack := by
  have made : Reaches .binary64 65 (UnpackedFloat.ofNat .binary64 n.toNat) :=
    reaches_ofNat n.toNat_lt (by decide) (by decide)
  exact made.stored (by decide)

theorem reaches_tenTo : ∀ power < 41,
    Reaches .binary64 140 (Float.ofScientific 1 false power).toModel.unpack := by
  decide +kernel

/-- A number of 64 bits times a small power of ten does not overflow. -/
theorem isInf_mul_tenTo (n : UInt64) {power : Nat} (low : power < 41) :
    (n.toFloat * Float.ofScientific 1 false power).isInf = false := by
  have product := (reaches_toFloat n).mul (reaches_tenTo power low) (by decide)
  exact (product.stored (by decide)).isInf_eq

end Embedding

namespace Json.Literal

variable {literal : Literal} {significand : Nat} {power : Int}

theorem scale?_isSome (low : power ≤ 40) : (scale? significand power).isSome := by
  unfold scale?
  dsimp only
  split
  · rfl
  · rw [if_pos (by omega), Embedding.isInf_mul_tenTo _ (by omega)]
    rfl

theorem dropped_le (significand : Nat) (digits : List Char) :
    (appendDigits significand digits).2 ≤ digits.length := by
  induction digits generalizing significand with
  | nil => exact Nat.le_refl _
  | cons c digits ih =>
    unfold appendDigits
    dsimp only
    split
    · exact Nat.le_succ_of_le (ih _)
    · exact Nat.le_refl _

theorem foldl_digitValue (n : Nat) (digits : List Char) :
    digits.foldl (fun n c => n * 10 + digitValue c) n = Nat.ofDigitChars 10 digits n := by
  induction digits generalizing n with
  | nil => rfl
  | cons c digits ih =>
    rw [List.foldl_cons, ih, Nat.ofDigitChars_cons, Nat.mul_comm]
    rfl

theorem clamp_le {n : Int} (low : n ≤ 40) : clamp n ≤ 40 := by
  have least : Int32.minValue.toInt ≤ 40 := by decide
  unfold clamp
  omega

/-- A literal that does not reach too far stands for a number. -/
theorem number?_isSome (short : literal.reach ≤ 40) : literal.number?.isSome := by
  have dropped := dropped_le 0 literal.whole
  have magnitude : literal.magnitude?.isSome := by
    unfold reach at short
    unfold magnitude?
    dsimp only
    split
    · exact scale?_isSome (by omega)
    · next negative digits written =>
      rw [foldl_digitValue]
      split
      · next large =>
        cases negative with
        | true => simp
        | false =>
          have most : Int32.maxValue.toInt = 2147483647 := rfl
          rw [written] at short
          simp only at short
          omega
      · refine scale?_isSome (clamp_le ?_)
        rw [written] at short
        cases negative <;> simp at short ⊢ <;> omega
  unfold number?
  dsimp only
  split
  · split
    · rfl
    · split <;> rfl
  · rw [Option.isSome_map]
    exact magnitude

end Json.Literal

namespace Json

open Decimal

theorem width_le {s : Scaled} {limit : Nat} (within : s.Within limit) : width s ≤ limit + 1 := by
  obtain ⟨coarse, small⟩ := within
  have digits : (Nat.toDigits 10 s.coefficient).length ≤ (limit - s.exponent).toNat + 1 := by
    rw [Nat.length_toDigits_le_iff (by decide) (Nat.succ_pos _)]
    exact Nat.lt_of_le_of_lt small (Nat.pow_lt_pow_succ (by decide))
  unfold width
  omega

section Single

variable {bits : UInt32}

/-- The bits are those of a finite number. -/
def IsFinite (bits : UInt32) : Prop :=
  ∃ negative b, Layout.single.classify bits.toNat = .finite negative b

theorem IsFinite.reads (finite : IsFinite bits) :
    ∃ literal, (Number.single bits).Reads literal ∧ literal.number?.isSome := by
  obtain ⟨negative, b, finite⟩ := finite
  obtain ⟨text, written⟩ : ∃ text, Style.single.write bits.toNat = some text := by
    unfold Style.write
    rw [show Style.single.layout = Layout.single from rfl, finite]
    exact ⟨_, rfl⟩
  obtain ⟨_, _, literal, same, legible, spelled, reach⟩ := exists_literal Layout.usual_single written
  obtain ⟨rfl, rfl⟩ := Class.finite.inj (finite.symm.trans same)
  have short : width b.shortest ≤ 39 + 1 := width_le (Layout.shortest_single finite)
  refine ⟨literal, legible.reads ?_, Literal.number?_isSome (by omega)⟩
  rw [Number.render, written]
  exact spelled

theorem render_of_not_isFinite (special : ¬ IsFinite bits) : (Number.single bits).render = "null" := by
  have none : Style.single.write bits.toNat = none := by
    unfold Style.write
    split
    · rfl
    · rfl
    · next negative b finite => exact absurd ⟨negative, b, finite⟩ special
  rw [Number.render, none]
  rfl

theorem Decoder.single_isSome {literal : Literal} (some : literal.number?.isSome) (depth : Nat) :
    (single depth (.number literal)).isSome := by
  obtain ⟨number, read⟩ := Option.isSome_iff_exists.mp some
  simp only [single, read]
  cases number <;> rfl

/-- A number is finite if its exponent is not the largest one. -/
theorem classify_isFinite (bits : UInt32) :
    IsFinite bits ↔ (bits.toNat >>> 23) % 256 ≠ 255 := by
  have widths : Layout.single.fraction = 23 ∧ 1 <<< Layout.single.exponent = 256 :=
    ⟨rfl, by decide⟩
  unfold IsFinite Layout.classify
  dsimp only
  rw [widths.1, widths.2]
  constructor
  · rintro ⟨negative, b, finite⟩ largest
    rw [if_pos (by omega)] at finite
    split at finite <;> cases finite
  · intro finite
    rw [if_neg (by omega)]
    split
    · exact ⟨_, _, rfl⟩
    · exact ⟨_, _, rfl⟩

open Float.Model Float.Model.UnpackedFloat in
theorem isFinite_iff (x : Float32) : IsFinite x.toBits ↔ x.isFinite = true := by
  have unpacked : x.isFinite = (UnpackedFloat.unpack .binary32 x.toBits.toBitVec).isFinite := rfl
  have exponent : (@unpackExponent .binary32 x.toBits.toBitVec).toNat =
      (x.toBits.toNat >>> 23) % 256 :=
    BitVec.extractLsb_toNat ..
  have largest : @unpackExponent .binary32 x.toBits.toBitVec = -1#8 ↔
      (x.toBits.toNat >>> 23) % 256 = 255 := by
    rw [← exponent, ← BitVec.toNat_inj]
    rfl
  rw [classify_isFinite, unpacked, Ne, ← largest]
  unfold UnpackedFloat.unpack
  dsimp only
  constructor
  · intro finite
    rw [if_neg finite]
    by_cases subnormal : @unpackExponent .binary32 x.toBits.toBitVec = 0#_
    · rw [if_pos subnormal]
      by_cases zero : @unpackMantissa .binary32 x.toBits.toBitVec = 0#_
      · rw [dif_pos zero]
        rfl
      · rw [dif_neg zero]
        rfl
    · rw [if_neg subnormal]
      rfl
  · intro finite special
    rw [if_pos special] at finite
    split at finite <;> cases finite

end Single

/-- What is read of the text of a number alone. -/
def reread (x : Float32) : Option Float32 := decode? Decoder.single (ofFloat32 x).render

theorem reread_isSome_iff (x : Float32) : (reread x).isSome ↔ x.isFinite = true := by
  rw [← isFinite_iff]
  constructor
  · intro some
    by_contra special
    have text : (ofFloat32 x).render = "null" := render_of_not_isFinite special
    rw [reread, text] at some
    cases some
  · intro finite
    obtain ⟨literal, reads, number⟩ := finite.reads
    have spells : Spells (ofFloat32 x) (.number literal) := .number reads
    rw [reread, decode?, spells.parse?]
    exact Decoder.single_isSome number maxDepth

end Json

end CodeAtlas
