import CodeAtlas.Json.Document
import CodeAtlas.Json.Printer
import Mathlib.Tactic.SplitIfs

namespace CodeAtlas.Json

open Document

theorem unit?_hexDigit {n : Nat} (small : n < 0x20) :
    unit? '0' '0' (hexDigit (n / 16)) (hexDigit (n % 16)) = some n := by
  have all : ∀ n < 0x20, unit? '0' '0' (hexDigit (n / 16)) (hexDigit (n % 16)) = some n := by decide
  exact all n small

theorem stringRest_unit_none {a b c d : Char} (malformed : unit? a b c d = none) (rest : List Char)
    (read : Option (List Char)) :
    stringRest ('\\' :: 'u' :: a :: b :: c :: d :: rest) read = none := by
  by_cases another : ∃ e f g h tail, rest = '\\' :: 'u' :: e :: f :: g :: h :: tail
  · obtain ⟨e, f, g, h, tail, rfl⟩ := another
    rw [stringRest.eq_3, malformed]
    rfl
  · rw [stringRest.eq_4 _ _ _ _ _ _ (by grind), malformed]
    rfl

/-- A code unit below the surrogates that is written in full. What follows may be another one, which
is then read ahead to see whether both are a pair. -/
theorem stringRest_unit {a b c d : Char} {n : Nat} (value : unit? a b c d = some n)
    (small : n < 0xD800) (rest : List Char) (read : Option (List Char)) :
    stringRest ('\\' :: 'u' :: a :: b :: c :: d :: rest) read =
      stringRest rest (read.map (Char.ofNat n :: ·)) := by
  have high : isHighSurrogate n = false := by simp [isHighSurrogate]; omega
  have low : isLowSurrogate n = false := by simp [isLowSurrogate]; omega
  by_cases another : ∃ e f g h tail, rest = '\\' :: 'u' :: e :: f :: g :: h :: tail
  · obtain ⟨e, f, g, h, tail, rfl⟩ := another
    rw [stringRest.eq_3, value]
    cases second : unit? e f g h with
    | some m => simp [high, low]
    | none => simp [stringRest_unit_none second]
  · rw [stringRest.eq_4 _ _ _ _ _ _ (by grind), value]
    simp [high, low]

theorem stringRest_escaped {letter c : Char} (meaning : escaped? letter = some c)
    (rest : List Char) (read : Option (List Char)) :
    stringRest ('\\' :: letter :: rest) read = stringRest rest (read.map (c :: ·)) := by
  have notUnit : letter ≠ 'u' := by rintro rfl; simp [escaped?] at meaning
  rw [stringRest.eq_5 _ _ _ (by grind) (by grind), meaning]
  rfl

theorem stringRest_plain {c : Char} (notQuote : c ≠ '\x22') (notBackslash : c ≠ '\\')
    (visible : 0x20 ≤ c.toNat) (rest : List Char) (read : Option (List Char)) :
    stringRest (c :: rest) read = stringRest rest (read.map (c :: ·)) := by
  rw [stringRest.eq_6 _ _ _ notQuote (by grind) (by grind) (by grind), if_neg (by omega)]

/-- What is written for a character is read as that character. -/
theorem stringRest_escape_append (c : Char) (rest : List Char) (read : Option (List Char)) :
    stringRest (escape c ++ rest) read = stringRest rest (read.map (c :: ·)) := by
  unfold escape
  split_ifs with quote backslash backspace feed line carriage tab control
  · rw [eq_of_beq quote]; exact stringRest_escaped rfl rest read
  · rw [eq_of_beq backslash]; exact stringRest_escaped rfl rest read
  · rw [eq_of_beq backspace]; exact stringRest_escaped rfl rest read
  · rw [eq_of_beq feed]; exact stringRest_escaped rfl rest read
  · rw [eq_of_beq line]; exact stringRest_escaped rfl rest read
  · rw [eq_of_beq carriage]; exact stringRest_escaped rfl rest read
  · rw [eq_of_beq tab]; exact stringRest_escaped rfl rest read
  · have read' := stringRest_unit (unit?_hexDigit control) (by omega) rest read
    rwa [Char.ofNat_toNat] at read'
  · exact stringRest_plain (by simpa using quote) (by simpa using backslash) (by omega) rest read

/-- Reading a string up to its closing quote gives back all of its characters. -/
theorem stringRest_flatMap_escape (text rest read : List Char) :
    stringRest (text.flatMap escape ++ '\x22' :: rest) (some read) =
      some (some (String.ofList (read.reverse ++ text)), rest) := by
  induction text generalizing read with
  | nil => simp [stringRest]
  | cons c text ih =>
    rw [List.flatMap_cons, List.append_assoc, stringRest_escape_append, Option.map_some, ih]
    simp

theorem quote_injective {first second : String} (same : quote first = quote second) :
    first = second := by
  have characters := String.ofList_injective same
  have tails : first.toList.flatMap escape ++ ['\x22'] = second.toList.flatMap escape ++ ['\x22'] :=
    (List.cons.inj characters).2
  have readFirst := stringRest_flatMap_escape first.toList [] []
  rw [tails, stringRest_flatMap_escape] at readFirst
  simpa using readFirst.symm

end CodeAtlas.Json
