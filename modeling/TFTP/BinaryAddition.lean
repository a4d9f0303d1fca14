import TFTP.BitPacking

/-!
# Addition of binary strings

`addBinary` adds two strings of zeros and ones and keeps their width. Its loop counts places
in an int, which is too small for the index of the last place of a string of more than 2^31
chars: such a sum loses its first places, or all of them.
-/

namespace TFTP.BinaryAddition

open CodeLengths HuffmanCodes BitPacking
open RippleCarry (align)

/-- The number that a string spells in binary. -/
def value : List UInt8 → Nat
  | [] => 0
  | c :: string => (digitOf c).toNat * 2 ^ string.length + value string

/-- The string `c` spells the sum of `a` and `b`, as wide as the wider of them, or one place
wider if that is too narrow. -/
structure Sum (a b c : List UInt8) : Prop where
  digits : BitString c
  sum : value c = value a + value b
  width : c.length = max a.length b.length +
    if 2 ^ max a.length b.length ≤ value a + value b then 1 else 0

theorem Sum.wide {a b c : List UInt8} (added : Sum a b c) :
    max a.length b.length ≤ c.length := by
  rw [added.width]
  exact Nat.le_add_right _ _

theorem value_chars (bits : List Bool) : value (chars bits) = RippleCarry.value bits := by
  induction bits with
  | nil => rfl
  | cons b bits ih =>
    have digit : (digitOf (bitChar b)).toNat = b.toNat := by
      revert b
      decide
    rw [RippleCarry.value, ← ih, ← digit, ← chars_length bits]
    rfl

theorem bitString_chars (bits : List Bool) : BitString (chars bits) := by
  intro c mem
  obtain ⟨b, -, rfl⟩ := List.mem_map.mp mem
  cases b with
  | false => exact Or.inl rfl
  | true => exact Or.inr rfl

theorem sum_add (a b : List Bool) : Sum (chars a) (chars b) (chars (RippleCarry.add a b)) := by
  constructor
  · exact bitString_chars _
  · rw [value_chars, value_chars, value_chars, RippleCarry.add_value]
  · rw [chars_length, chars_length, chars_length, value_chars, value_chars,
      RippleCarry.add_length]

/-- From 2^31 + 1 places on, the int holds another number than the index of the last one. -/
theorem places_lt {n : Nat} (long : 2 ^ 31 < n) : places n + 1 < n := by
  unfold places toInt
  rw [Int.bmod_def]
  split_ifs <;> omega

/-- The int is negative, and the loop is left at once. -/
theorem places_eq_zero {n : Nat} (long : 2 ^ 31 < n) (le : n ≤ 2 ^ 32) : places n = 0 := by
  unfold places toInt
  rw [Int.bmod_def]
  split_ifs <;> omega

/-- A string that is too long for the index is longer than its sum. -/
theorem addBinary_length_lt {a b : List Bool} (long : 2 ^ 31 < max a.length b.length) :
    (addBinary (chars a) (chars b)).length < max a.length b.length := by
  have added := RippleCarry.sum_length_le ((align a b).take (places (max a.length b.length)))
  have cut := List.length_take_le (places (max a.length b.length)) (align a b)
  rw [addBinary_chars, chars_length]
  exact Nat.lt_of_le_of_lt (Nat.le_trans added (Nat.succ_le_succ cut)) (places_lt long)

theorem addBinary_eq_nil {a b : List Bool} (long : 2 ^ 31 < max a.length b.length)
    (le : max a.length b.length ≤ 2 ^ 32) : addBinary (chars a) (chars b) = [] := by
  rw [addBinary_chars, places_eq_zero long le]
  rfl

/-- `addBinary` adds if the index of the last place fits into an int, and only then. -/
theorem addBinary_sum_iff {a b : List UInt8} (ha : BitString a) (hb : BitString b) :
    Sum a b (addBinary a b) ↔ max a.length b.length ≤ 2 ^ 31 := by
  obtain ⟨a, rfl⟩ := ha.chars
  obtain ⟨b, rfl⟩ := hb.chars
  rw [chars_length, chars_length]
  constructor
  · intro added
    by_contra long
    have short := addBinary_length_lt (Nat.lt_of_not_le long)
    have wide := added.wide
    rw [chars_length, chars_length] at wide
    exact Nat.not_le_of_lt short wide
  · intro short
    rw [addBinary_short short]
    exact sum_add a b

theorem addBinary_three_one :
    BitString [one, one] ∧ BitString [one] ∧
      Sum [one, one] [one] (addBinary [one, one] [one]) := by
  have three : BitString [one, one] := bitString_chars [true, true]
  have first : BitString [one] := bitString_chars [true]
  exact ⟨three, first, (addBinary_sum_iff three first).mpr (by decide)⟩

/-- One added to 2^31 + 1 zeros is the empty string. -/
theorem addBinary_long_zeros :
    BitString (List.replicate (2 ^ 31 + 1) shuniya) ∧ BitString [one] ∧
      addBinary (List.replicate (2 ^ 31 + 1) shuniya) [one] = [] ∧
      ¬ Sum (List.replicate (2 ^ 31 + 1) shuniya) [one]
        (addBinary (List.replicate (2 ^ 31 + 1) shuniya) [one]) := by
  have width : max (List.replicate (2 ^ 31 + 1) false).length [true].length = 2 ^ 31 + 1 := by
    rw [List.length_replicate]
    rfl
  have nothing := addBinary_eq_nil (by omega) (Nat.le_trans (Nat.le_of_eq width) (by decide))
  rw [chars_replicate] at nothing
  have zeros := bitString_chars (List.replicate (2 ^ 31 + 1) false)
  rw [chars_replicate] at zeros
  refine ⟨zeros, bitString_chars [true], nothing, ?_⟩
  intro added
  have wide := added.wide
  rw [show [one] = chars [true] from rfl, nothing, List.length_replicate] at wide
  exact absurd (Nat.le_trans (Nat.le_max_left _ _) wide) (Nat.not_succ_le_zero _)

end TFTP.BinaryAddition
