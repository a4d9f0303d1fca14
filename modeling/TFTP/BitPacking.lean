import TFTP.Compression
import Mathlib.Order.Bounds.Basic

/-!
# Bits packed and spelled out

The packing loop of `deflate` fills bytes from their lowest bit on and writes a started byte
at its end; `readBinaryFile` spells every byte out from its lowest bit on. Each undoes the
other, up to the zeros that fill the last byte.
-/

namespace TFTP.BitPacking

open HuffmanCodes Compression

/-- The packing loop on the chars of a string, and what is written behind it. -/
def pack (string : List UInt8) : List UInt8 :=
  let s := string.foldl packBit ⟨∅, 0, 0, []⟩
  if 0 < s.bitIndex then s.output ++ [s.packedBits] else s.output

def BitString (string : List UInt8) : Prop := ∀ c ∈ string, c = shuniya ∨ c = one

theorem BitString.chars {string : List UInt8} (digits : BitString string) :
    ∃ bits, string = HuffmanCodes.chars bits := by
  refine ⟨string.map (· == one), ?_⟩
  rw [HuffmanCodes.chars, List.map_map]
  refine ((List.map_congr_left ?_).trans (List.map_id string)).symm
  intro c mem
  rcases digits c mem with rfl | rfl <;> decide

/-- The map of the codes takes no part in the packing of a code. -/
theorem foldl_packBit_codes (code : List UInt8) (s : Packing) (codes : CodeMap) :
    code.foldl packBit { s with charWithHuffmanCodes := codes } =
      { code.foldl packBit s with charWithHuffmanCodes := codes } := by
  induction code generalizing s with
  | nil => rfl
  | cons k code ih =>
    have step : packBit { s with charWithHuffmanCodes := codes } k =
        { packBit s k with charWithHuffmanCodes := codes } := by
      unfold packBit
      split_ifs <;> rfl
    rw [List.foldl_cons, step, ih]
    rfl

theorem subscript_getD (codes : CodeMap) (c : Int8) :
    (subscript codes c).1 = codes.getD c [] ∧
      ∀ d, (subscript codes c).2.getD d [] = codes.getD d [] := by
  unfold subscript
  cases found : codes[c]? with
  | some code =>
    exact ⟨by rw [Std.TreeMap.getD_eq_getD_getElem?, found]; rfl, fun d => rfl⟩
  | none =>
    refine ⟨by rw [Std.TreeMap.getD_eq_getD_getElem?, found]; rfl, fun d => ?_⟩
    rw [Std.TreeMap.getD_insert]
    split_ifs with same
    · obtain rfl := Std.LawfulEqCmp.eq_of_compare same
      rw [Std.TreeMap.getD_eq_getD_getElem?, found]
      rfl
    · rfl

theorem foldl_packChar (file : List UInt8) (s : Packing) :
    ∃ codes, file.foldl packChar s =
      { (file.flatMap fun c => s.charWithHuffmanCodes.getD c.toInt8 []).foldl packBit s with
        charWithHuffmanCodes := codes } := by
  induction file generalizing s with
  | nil => exact ⟨s.charWithHuffmanCodes, rfl⟩
  | cons c file ih =>
    obtain ⟨code, others⟩ := subscript_getD s.charWithHuffmanCodes c.toInt8
    have step : packChar s c =
        { (s.charWithHuffmanCodes.getD c.toInt8 []).foldl packBit s with
          charWithHuffmanCodes := (subscript s.charWithHuffmanCodes c.toInt8).2 } := by
      rw [← code, ← foldl_packBit_codes]
      rfl
    obtain ⟨codes, rest⟩ := ih (packChar s c)
    refine ⟨codes, ?_⟩
    rw [List.foldl_cons, rest, step, foldl_packBit_codes, List.flatMap_cons, List.foldl_append]
    simp only [others]

/-- The bytes `deflate` packs are those of the codes of the file, one behind the other. -/
theorem packFile_pack (codes : CodeMap) (file : List UInt8) :
    (packFile codes file).2 = pack (file.flatMap fun c => codes.getD c.toInt8 []) := by
  obtain ⟨codes', run⟩ := foldl_packChar file ⟨codes, 0, 0, []⟩
  have start := foldl_packBit_codes (file.flatMap fun c => codes.getD c.toInt8 []) ⟨∅, 0, 0, []⟩
    codes
  rw [packFile, run, start]
  rfl

theorem spelled_injective {b c : UInt8}
    (same : (List.range 8).map (bitOf b) = (List.range 8).map (bitOf c)) : b = c := by
  have injective : ∀ x y, bitChar x = bitChar y → x = y := by decide
  apply UInt8.toNat_inj.mp
  apply Nat.eq_of_testBit_eq
  intro i
  rcases Nat.lt_or_ge i 8 with lt | ge
  · have chars := List.map_inj_left.mp same i (List.mem_range.mpr lt)
    rw [bitOf_eq b lt, bitOf_eq c lt] at chars
    exact injective _ _ chars
  · have small : 256 ≤ 2 ^ i := Nat.pow_le_pow_right (n := 2) (by decide) ge
    rw [Nat.testBit_lt_two_pow (Nat.lt_of_lt_of_le b.toNat_lt small),
      Nat.testBit_lt_two_pow (Nat.lt_of_lt_of_le c.toNat_lt small)]

theorem readBinaryFile_injective {a b : List UInt8} (same : readBinaryFile a = readBinaryFile b) :
    a = b := by
  induction a generalizing b with
  | nil =>
    cases b with
    | nil => rfl
    | cons y b => cases same
  | cons x a ih =>
    cases b with
    | nil => cases same
    | cons y b =>
      obtain ⟨first, rest⟩ := List.append_inj same (by simp only [List.length_map])
      rw [spelled_injective first, ih rest]

theorem readBinaryFile_length (bytes : List UInt8) :
    (readBinaryFile bytes).length = 8 * bytes.length := by
  induction bytes with
  | nil => rfl
  | cons b bytes ih =>
    rw [readBinaryFile, List.flatMap_cons, List.length_append, List.length_map, List.length_range,
      List.length_cons, ← readBinaryFile, ih]
    omega

theorem readBinaryFile_digits (bytes : List UInt8) : BitString (readBinaryFile bytes) := by
  intro c mem
  obtain ⟨b, _, spelled⟩ := List.mem_flatMap.mp mem
  obtain ⟨i, _, rfl⟩ := List.mem_map.mp spelled
  unfold bitOf
  split_ifs
  · exact Or.inr rfl
  · exact Or.inl rfl

/-- Zeros are added up to the next multiple of eight. -/
theorem unused_least (n : Nat) : unused n ≤ 7 ∧ IsLeast {k | 8 ∣ n + k} (unused n) := by
  unfold unused
  refine ⟨by omega, ?_, ?_⟩
  · change 8 ∣ n + (8 - n % 8) % 8
    omega
  · intro k multiple
    change 8 ∣ n + k at multiple
    omega

theorem readBinaryFile_pack {string : List UInt8} (digits : BitString string) :
    readBinaryFile (pack string) =
      string ++ List.replicate (unused string.length) shuniya := by
  obtain ⟨bits, rfl⟩ := digits.chars
  have start : Packed [] [] ⟨∅, 0, 0, []⟩ := ⟨rfl, rfl, holdsBits_zero, rfl, by decide⟩
  obtain ⟨_, done, part, joined, packed⟩ := foldl_packBit_packed start bits
  rw [pack, packed.flush, joined, chars_append, chars_replicate, chars_length]
  rfl

/-- Packing a bit string and spelling it out again fills it up with the fewest zeros, and
spelling bytes out and packing them again gives them back. -/
theorem packing_inverse :
    (∀ string, BitString string → ∃ pad ≤ 7, IsLeast {k | 8 ∣ string.length + k} pad ∧
      readBinaryFile (pack string) = string ++ List.replicate pad shuniya) ∧
    ∀ bytes, pack (readBinaryFile bytes) = bytes := by
  constructor
  · intro string digits
    obtain ⟨few, least⟩ := unused_least string.length
    exact ⟨_, few, least, readBinaryFile_pack digits⟩
  · intro bytes
    have whole : unused (readBinaryFile bytes).length = 0 := by
      rw [readBinaryFile_length, unused]
      omega
    apply readBinaryFile_injective
    rw [readBinaryFile_pack (readBinaryFile_digits bytes), whole]
    exact List.append_nil _

/-- Three bits. -/
theorem packing_inverse_five : pack [one, shuniya, one] = [5] ∧
    ∃ pad ≤ 7, IsLeast {k | 8 ∣ [one, shuniya, one].length + k} pad ∧
      readBinaryFile (pack [one, shuniya, one]) =
        [one, shuniya, one] ++ List.replicate pad shuniya :=
  ⟨by decide, packing_inverse.1 [one, shuniya, one] (by simp [BitString])⟩

end TFTP.BitPacking
