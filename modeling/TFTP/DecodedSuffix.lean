import TFTP.GeneratedCodes
import TFTP.Lossless

/-!
# What is read behind a file

The bits that the last byte leaves unused are zeros, and the all-zero code belongs to the
first char of the reversed vector. The vector is in the order of the counts, and a multimap
keeps equal counts in the order of the chars, so this is the last of the most frequent bytes.
-/

namespace TFTP.DecodedSuffix

open HuffmanCodes GeneratedCodes Compression Lossless

/-- The code map of `deflate`. -/
def fileCodes (file : List UInt8) : Option CodeMap :=
  let sorted := sortedOnBasisOfFrequency (countFrequency file)
  generateHuffmanCodes (sorted.map fun pair => Int.ofNat pair.1) (sorted.map (·.2))

/-- The bits of all bytes of the file. -/
def codeLength (codes : CodeMap) (file : List UInt8) : Nat :=
  (file.map fun c => (codeOf codes c.toInt8).length).sum

/-- No byte occurs more often, and none that occurs as often is a greater char. -/
structure MostFrequent (file : List UInt8) (c : UInt8) : Prop where
  mem : c ∈ file
  last : ∀ d ∈ file,
    file.count d < file.count c ∨ file.count d = file.count c ∧ d.toInt8 ≤ c.toInt8

theorem mem_sortedPairs_iff (file : List UInt8) (p : Nat × Int8) :
    p ∈ sortedPairs file ↔ ∃ c ∈ file, p = (file.count c, c.toInt8) := by
  rw [(sortedPairs_perm file).mem_iff, List.mem_map]
  constructor
  · rintro ⟨c, mem, rfl⟩
    exact ⟨c, List.mem_dedup.mp mem, rfl⟩
  · rintro ⟨c, mem, rfl⟩
    exact ⟨c, List.mem_dedup.mpr mem, rfl⟩

/-- The alphabet begins with the last of the most frequent bytes. -/
theorem alphabet_head {file : List UInt8} {k : Int8} {rest : List Int8}
    (head : alphabet file = k :: rest) : ∃ c, k = c.toInt8 ∧ MostFrequent file c := by
  rw [alphabet, ← List.map_reverse] at head
  obtain ⟨p, others, reversed, rfl, _⟩ := List.map_eq_cons_iff.mp head
  have sorted := List.pairwise_reverse.mpr (sortedPairs_sorted file)
  rw [reversed] at sorted
  obtain ⟨greatest, _⟩ := List.pairwise_cons.mp sorted
  have there : p ∈ sortedPairs file := by
    rw [← List.mem_reverse, reversed]
    exact List.mem_cons_self
  obtain ⟨c, mem, rfl⟩ := (mem_sortedPairs_iff file p).mp there
  refine ⟨c, rfl, mem, ?_⟩
  intro d hd
  have pair := List.mem_reverse.mpr ((mem_sortedPairs_iff file _).mpr ⟨d, hd, rfl⟩)
  rw [reversed] at pair
  rcases List.mem_cons.mp pair with same | other
  · obtain ⟨counts, chars⟩ := Prod.mk.inj same
    exact Or.inr ⟨counts, Int8.le_of_eq chars⟩
  · rcases greatest _ other with less | ⟨counts, chars⟩
    · exact Or.inl less
    · exact Or.inr ⟨counts, Int8.le_of_lt chars⟩

theorem codeLength_eq {file : List UInt8} {codes : CodeMap} (coded : Coded file codes) :
    codeLength codes file = bitCount file := by
  rw [← coded.bits_length, List.length_flatMap]
  refine congrArg List.sum (List.map_congr_left fun c _ => ?_)
  rw [codeBits, List.length_map]
  rfl

/-- The file comes back followed by copies of its most frequent byte, as many as whole codes
of it fit into the unused bits of the last byte. -/
theorem roundTrip_suffix {file : List UInt8} (two : ∃ a ∈ file, ∃ b ∈ file, a ≠ b)
    (small : file.length < 2 ^ 31) :
    ∃ codes c, fileCodes file = some codes ∧ MostFrequent file c ∧
      0 < (codeOf codes c.toInt8).length ∧
      roundTrip file = some (file ++ List.replicate
        ((8 - codeLength codes file % 8) % 8 / (codeOf codes c.toInt8).length) c) := by
  obtain ⟨codes, coded⟩ := file_coded two small
  obtain ⟨a, ha, _⟩ := two
  have ne : alphabet file ≠ [] :=
    List.ne_nil_of_mem (List.mem_reverse.mpr (mem_sortedPairs file ha))
  obtain ⟨k, rest, head, zeros⟩ := coded.zeros ne
  obtain ⟨c, rfl, most⟩ := alphabet_head head
  have code : codeOf codes c.toInt8 = List.replicate (shallowest file) shuniya := by
    rw [codeOf, Std.TreeMap.getD_eq_getD_getElem?, zeros]
    rfl
  have size : (codeOf codes c.toInt8).length = shallowest file := by
    rw [code, List.length_replicate]
  refine ⟨codes, c, coded.run, most, ?_, ?_⟩
  · rw [size]
    apply Nat.pos_of_ne_zero
    intro none
    have full := (coded.decodable.short _ _ zeros).ne_nil
    rw [none] at full
    exact full rfl
  · rw [size, codeLength_eq coded, roundTrip, coded.deflate_eq, Option.bind_some]
    exact coded.decompress_eq zeros

/-- Two bytes that occur as often as each other, of which the second is the greater char. -/
theorem roundTrip_suffix_two : ∃ codes c, fileCodes [97, 98] = some codes ∧
    MostFrequent [97, 98] c ∧ 0 < (codeOf codes c.toInt8).length ∧
    roundTrip [97, 98] = some ([97, 98] ++ List.replicate
      ((8 - codeLength codes [97, 98] % 8) % 8 / (codeOf codes c.toInt8).length) c) :=
  roundTrip_suffix ⟨97, by decide, 98, by decide, by decide⟩ (by decide)

end TFTP.DecodedSuffix
