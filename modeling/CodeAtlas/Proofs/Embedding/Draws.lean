import CodeAtlas.Embedding.Hash
import Mathlib.Logic.Function.Iterate

namespace CodeAtlas

namespace Digest

open Function

variable {x y distance factor inverse : UInt64}

/-- A word that is moved to the right becomes less, unless there is nothing in it. -/
theorem eq_zero_of_shiftRight_eq (moves : 0 < distance.toNat % 64) (same : x >>> distance = x) :
    x = 0 := by
  have quotient : x.toNat / 2 ^ (distance.toNat % 64) = x.toNat := by
    rw [← Nat.shiftRight_eq_div_pow, ← UInt64.toNat_shiftRight, same]
  have large : 1 < 2 ^ (distance.toNat % 64) := Nat.one_lt_two_pow (Nat.ne_of_gt moves)
  apply UInt64.toNat_inj.mp
  by_contra nonzero
  have less := Nat.div_lt_self (Nat.pos_of_ne_zero nonzero) large
  omega

/-- A word can be told from what it becomes when its own shift is laid over it: of two words that
become the same, the difference is its own shift. -/
theorem xor_shiftRight_injective (moves : 0 < distance.toNat % 64) :
    Injective fun x : UInt64 => x ^^^ (x >>> distance) := by
  intro x y (same : x ^^^ (x >>> distance) = y ^^^ (y >>> distance))
  have difference : (x ^^^ y) >>> distance = x ^^^ y := by
    have shifts : (x ^^^ y) ^^^ ((x >>> distance) ^^^ (y >>> distance)) = 0 := by
      calc (x ^^^ y) ^^^ ((x >>> distance) ^^^ (y >>> distance))
          = (x ^^^ (x >>> distance)) ^^^ (y ^^^ (y >>> distance)) := by ac_rfl
        _ = 0 := by rw [same, UInt64.xor_self]
    rw [UInt64.shiftRight_xor]
    exact (UInt64.xor_eq_zero_iff.mp shifts).symm
  exact UInt64.xor_eq_zero_iff.mp (eq_zero_of_shiftRight_eq moves difference)

theorem mul_right_injective (inverse : UInt64) (unit : factor * inverse = 1) :
    Injective fun x : UInt64 => x * factor := by
  intro x y (same : x * factor = y * factor)
  calc x = x * factor * inverse := by rw [UInt64.mul_assoc, unit, UInt64.mul_one]
    _ = y * factor * inverse := by rw [same]
    _ = y := by rw [UInt64.mul_assoc, unit, UInt64.mul_one]

theorem scramble_injective : Injective scramble := by
  have first : Injective fun x : UInt64 => (x ^^^ (x >>> 30)) * 0xBF58476D1CE4E5B9 :=
    (mul_right_injective 0x96DE1B173F119089 (by decide)).comp
      (xor_shiftRight_injective (by decide))
  have second : Injective fun x : UInt64 => (x ^^^ (x >>> 27)) * 0x94D049BB133111EB :=
    (mul_right_injective 0x319642B2D24D8EC3 (by decide)).comp
      (xor_shiftRight_injective (by decide))
  have third : Injective fun x : UInt64 => x ^^^ (x >>> 31) := xor_shiftRight_injective (by decide)
  exact third.comp (second.comp first)

/-- The state that a word is drawn in is left for this one. -/
def advance (state : UInt64) : UInt64 := state + streamStep

/-- The word that is drawn in a state. -/
def output (state : UInt64) : UInt64 := scramble (advance state)

theorem output_injective : Injective output := fun _ _ same =>
  (UInt64.add_left_inj streamStep).mp (scramble_injective same)

theorem iterate_advance (seed : UInt64) (count : Nat) :
    advance^[count] seed = seed + streamStep * count.toUInt64 := by
  induction count with
  | zero => exact (UInt64.add_zero seed).symm
  | succ count ih =>
    rw [iterate_succ_apply', ih, advance, UInt64.add_assoc]
    have next : (count + 1).toUInt64 = count.toUInt64 + 1 := UInt64.ofNat_add count 1
    rw [next, UInt64.mul_add, UInt64.mul_one]

/-- Words are drawn one after the other, each in the state that the one before it left. -/
theorem draw_eq (seed : UInt64) (i : Nat) : draw seed i = output (advance^[i] seed) := by
  rw [output, ← iterate_succ_apply' advance, iterate_advance]
  rfl

theorem draw_seed_injective (i : Nat) : Injective fun seed => draw seed i := fun _ _ same =>
  (UInt64.add_left_inj _).mp (scramble_injective same)

/-- As the step of the stream is odd, no state comes back until all have been gone through. -/
theorem draw_injective (seed : UInt64) {i j : Nat} (first : i < UInt64.size)
    (second : j < UInt64.size) (same : draw seed i = draw seed j) : i = j := by
  have states : streamStep * (i + 1).toUInt64 = streamStep * (j + 1).toUInt64 :=
    (UInt64.add_right_inj seed).mp (scramble_injective same)
  rw [UInt64.mul_comm streamStep, UInt64.mul_comm streamStep] at states
  have counts : (i + 1).toUInt64 = (j + 1).toUInt64 :=
    mul_right_injective 0xF1DE83E19937733D (by decide) states
  have remainders : (i + 1) % UInt64.size = (j + 1) % UInt64.size := congrArg UInt64.toNat counts
  simp only [UInt64.size] at first second remainders
  omega

theorem fnvPrime_injective : Injective fun x : UInt64 => x * fnvPrime :=
  mul_right_injective 0xCE965057AFF6957B (by decide)

theorem fnvStep_injective (byte : UInt8) : Injective fun hash => fnvStep hash byte :=
  fnvPrime_injective.comp fun _ _ same => (UInt64.xor_left_inj byte.toUInt64).mp same

theorem fnvStep_ne (hash : UInt64) {byte other : UInt8} (differ : byte ≠ other) :
    fnvStep hash byte ≠ fnvStep hash other := by
  intro same
  have words : byte.toUInt64 = other.toUInt64 := (UInt64.xor_right_inj hash).mp (fnvPrime_injective same)
  have numbers := congrArg UInt64.toNat words
  rw [UInt8.toNat_toUInt64, UInt8.toNat_toUInt64] at numbers
  exact differ (UInt8.toNat_inj.mp numbers)

/-- What follows keeps apart what was apart. -/
theorem foldl_fnvStep_injective (bytes : List UInt8) :
    Injective fun hash => bytes.foldl fnvStep hash := by
  induction bytes with
  | nil => exact injective_id
  | cons byte bytes ih => exact ih.comp (fnvStep_injective byte)

theorem fnv1a_append_cons_ne {byte other : UInt8} (differ : byte ≠ other)
    (front back : List UInt8) : fnv1a (front ++ byte :: back) ≠ fnv1a (front ++ other :: back) := by
  rw [fnv1a, fnv1a, List.foldl_append, List.foldl_append, List.foldl_cons, List.foldl_cons]
  exact (foldl_fnvStep_injective back).ne (fnvStep_ne _ differ)

/-- Lists of one length that differ in one place are the same before and after it. -/
theorem exists_append_cons {first second : List UInt8} (length : first.length = second.length)
    (once : ∃! i : Nat, first[i]? ≠ second[i]?) :
    ∃ front byte other back,
      first = front ++ byte :: back ∧ second = front ++ other :: back ∧ byte ≠ other := by
  obtain ⟨i, differ, only⟩ := once
  have agree {j : Nat} (elsewhere : j ≠ i) : first[j]? = second[j]? :=
    not_not.mp fun differs => elsewhere (only j differs)
  have inside : i < first.length := by
    by_contra beyond
    have outside := Nat.le_of_not_lt beyond
    exact differ (by rw [List.getElem?_eq_none outside, List.getElem?_eq_none (length ▸ outside)])
  have inside' : i < second.length := length ▸ inside
  have before : first.take i = second.take i := by
    apply List.ext_getElem?
    intro j
    rw [List.getElem?_take, List.getElem?_take]
    split
    · next earlier => exact agree (Nat.ne_of_lt earlier)
    · rfl
  have after : first.drop (i + 1) = second.drop (i + 1) := by
    apply List.ext_getElem?
    intro j
    rw [List.getElem?_drop, List.getElem?_drop]
    exact agree (by omega)
  refine ⟨first.take i, first[i], second[i], first.drop (i + 1), ?_, ?_, fun same => differ ?_⟩
  · rw [List.getElem_cons_drop, List.take_append_drop]
  · rw [before, after, List.getElem_cons_drop, List.take_append_drop]
  · rw [List.getElem?_eq_getElem inside, List.getElem?_eq_getElem inside', same]

theorem fnv1a_ne {first second : List UInt8} (length : first.length = second.length)
    (once : ∃! i : Nat, first[i]? ≠ second[i]?) : fnv1a first ≠ fnv1a second := by
  obtain ⟨front, byte, other, back, rfl, rfl, differ⟩ := exists_append_cons length once
  exact fnv1a_append_cons_ne differ front back

end Digest

namespace Embedding

open Digest

theorem seed_ne {text other : String} (dimension : Nat)
    (differ : fnv1a text.toUTF8.toList ≠ fnv1a other.toUTF8.toList) :
    seed text dimension ≠ seed other dimension := fun same =>
  differ ((UInt64.xor_left_inj _).mp same)

/-- The words that the vector of a text is made of lose nothing of the state that they are drawn in.
For every dimension, no word is drawn twice for a text in as many draws as there are words; and two
texts of one length that differ in one byte have different seeds, and different words at every place,
the first one included. -/
theorem draws_lose_nothing (dimension : Nat) :
    Function.Injective output ∧
      (∀ (text : String) (i : Nat), draw (seed text dimension) i =
        output (advance^[i] (seed text dimension))) ∧
      (∀ (text : String) (i j : Nat), i < UInt64.size → j < UInt64.size → i ≠ j →
        draw (seed text dimension) i ≠ draw (seed text dimension) j) ∧
      ∀ text other : String, text.toUTF8.toList.length = other.toUTF8.toList.length →
        (∃! i : Nat, text.toUTF8.toList[i]? ≠ other.toUTF8.toList[i]?) →
          fnv1a text.toUTF8.toList ≠ fnv1a other.toUTF8.toList ∧
          seed text dimension ≠ seed other dimension ∧
          ∀ i, draw (seed text dimension) i ≠ draw (seed other dimension) i := by
  refine ⟨output_injective, fun text => draw_eq _, fun text i j first second differ same =>
    differ (draw_injective _ first second same), fun text other length once => ?_⟩
  have hashes := fnv1a_ne length once
  have seeds := seed_ne dimension hashes
  exact ⟨hashes, seeds, fun i => (draw_seed_injective i).ne seeds⟩

/-- The last draw of a whole round is another one than the first. The letters that differ here have two
bytes each, of which they share the first one. -/
theorem draws_lose_nothing_letters :
    draw (seed "für" 384) (UInt64.size - 1) ≠ draw (seed "für" 384) 0 ∧
      draw (seed "für" 384) 0 ≠ draw (seed "fÿr" 384) 0 := by
  obtain ⟨_, _, apart, told⟩ := draws_lose_nothing 384
  have first : "für".toUTF8.toList = [0x66, 0xC3, 0xBC, 0x72] := by decide +kernel
  have second : "fÿr".toUTF8.toList = [0x66, 0xC3, 0xBF, 0x72] := by decide +kernel
  refine ⟨apart "für" _ _ (by decide) (by decide) (by decide), (told "für" "fÿr" ?_ ?_).2.2 0⟩
  · rw [first, second]
    rfl
  · rw [first, second]
    refine ⟨2, by decide, fun i differ => ?_⟩
    match i with
    | 0 | 1 | 3 => exact absurd rfl differ
    | 2 => rfl
    | _ + 4 => exact absurd rfl differ

end Embedding

end CodeAtlas
