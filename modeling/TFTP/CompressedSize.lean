import TFTP.BitPacking
import TFTP.DecodedSuffix

/-!
# How long a compressed file is

A table entry takes nine bytes and its code, one byte for each bit; the bits of the file
follow behind the delimiter. No code has more than 44 bits, and the bits are never more
than those of a code of one length, so that compression costs the table at worst.
-/

namespace TFTP.CompressedSize

open HuffmanTree HuffmanTree.CodeTree OptimalCode PrefixCode HuffmanCodes GeneratedCodes
open Compression Lossless DecodedSuffix

theorem encodeMapToBinaryFile_length (map : CodeMap) :
    (encodeMapToBinaryFile map).length =
      (map.toList.map fun entry => 9 + entry.2.length).sum := by
  rw [encodeMapToBinaryFile, List.length_flatMap]
  refine congrArg List.sum (List.map_congr_left fun entry _ => ?_)
  rw [encodeEntry, List.length_cons, List.length_append, sizeBytes_length]
  omega

/-- The bits fill whole bytes. -/
theorem packFile_length {codes : CodeMap} {file : List UInt8} {code : UInt8 → List Bool}
    (coded : ∀ c ∈ file, codes[c.toInt8]? = some (chars (code c))) :
    (packFile codes file).2.length = ((file.flatMap code).length + 7) / 8 := by
  obtain ⟨_, bits⟩ := readBinaryFile_packFile coded
  have length := congrArg List.length bits
  rw [BitPacking.readBinaryFile_length, chars_length, List.length_append,
    List.length_replicate, unused] at length
  omega

/-- The keys of the map are the bytes of the file. -/
theorem keys_perm {file : List UInt8} {map : CodeMap} (coded : Coded file map) :
    (map.toList.map Prod.fst).Perm (file.dedup.map UInt8.toInt8) := by
  rw [List.perm_ext_iff_of_nodup (toList_keys_nodup map)
    ((List.nodup_dedup file).map toInt8_injective)]
  intro k
  have keys := codes_keys coded.codes k
  have listed : k ∈ map.toList.map Prod.fst ↔ k ∈ map := by
    rw [Std.TreeMap.mem_iff_isSome_getElem?, List.mem_map, Option.isSome_iff_exists]
    constructor
    · rintro ⟨⟨_, code⟩, entry, rfl⟩
      exact ⟨code, Std.TreeMap.mem_toList_iff_getElem?_eq_some.mp entry⟩
    · rintro ⟨code, found⟩
      exact ⟨(k, code), Std.TreeMap.mem_toList_iff_getElem?_eq_some.mpr found, rfl⟩
  rw [listed, keys, alphabet, List.mem_reverse]
  have perm := (sortedPairs_perm file).map (·.2)
  rw [List.map_map] at perm
  exact perm.mem_iff

theorem table_length {file : List UInt8} {map : CodeMap} (coded : Coded file map) :
    (encodeMapToBinaryFile map).length =
      (file.dedup.map fun c => 9 + (codeOf map c.toInt8).length).sum := by
  have entries : (map.toList.map fun entry => 9 + entry.2.length) =
      (map.toList.map Prod.fst).map fun k => 9 + (codeOf map k).length := by
    rw [List.map_map]
    refine List.map_congr_left fun entry mem => ?_
    have found := Std.TreeMap.mem_toList_iff_getElem?_eq_some.mp mem
    simp only [Function.comp_apply, codeOf, Std.TreeMap.getD_eq_getD_getElem?, found,
      Option.getD_some]
  rw [encodeMapToBinaryFile_length, entries, ((keys_perm coded).map _).sum_nat, List.map_map]
  rfl

section Codes

variable {file : List UInt8} {map : CodeMap} {t : CodeTree}

/-- A leaf of depth 45 would take more bytes than there are. -/
theorem height_le (small : file.length < 2 ^ 31) (built : huffman (byteCounts file) = some t) :
    t.height ≤ 44 := by
  obtain ⟨weight, doubling, positive⟩ :=
    huffman_doubling (byteCounts_sorted file) (byteCounts_pos file) built
  have bound := fib_height_le doubling positive
  rw [weight, byteCounts_sum] at bound
  by_contra deep
  have least : Nat.fib 47 ≤ Nat.fib (t.height + 2) := Nat.fib_mono (by omega)
  have value : (2 : Nat) ^ 31 ≤ Nat.fib 47 := by decide +kernel
  omega

theorem codeOf_le (coded : Coded file map) (small : file.length < 2 ^ 31)
    (built : huffman (byteCounts file) = some t) {c : UInt8} (mem : c ∈ file) :
    (codeOf map c.toInt8).length ≤ 44 := by
  obtain ⟨w, there, found⟩ := coded.codes.word (List.mem_reverse.mpr (mem_sortedPairs file mem))
  have length : (codeOf map c.toInt8).length = w.length := by
    rw [codeOf, Std.TreeMap.getD_eq_getD_getElem?, found, Option.getD_some, chars_length,
      Word.bits, digits_length]
  have depth : w.length ∈ leafDepths file := by
    have lengths := List.mem_map_of_mem (f := Word.length) there
    rwa [map_length_words] at lengths
  rw [leafDepths, built] at depth
  have leaf := (List.mem_insertionSort _).mp depth
  have deep := t.depths_le_height 0 _ leaf
  have few := height_le small built
  omega

/-- The bits of the file are what its Huffman tree costs, at most. -/
theorem bitCount_le_cost (built : huffman (byteCounts file) = some t) :
    bitCount file ≤ cost t := by
  obtain ⟨_, leaves⟩ := huffman_optimal (byteCounts_sorted file) (byteCounts_pos file) built
  have sorted : (leafDepths file).Perm (t.depths 0) := by
    rw [leafDepths, built]
    exact List.perm_insertionSort _ _
  have ascending : (leafDepths file).Pairwise (· ≤ ·) := by
    rw [leafDepths, built]
    exact List.pairwise_insertionSort _ _
  have same : (byteCounts file).length = (leafDepths file).length := by
    rw [← leaves.length_eq, leafWeights_length t 0, sorted.length_eq]
  have reversed : bitCount file =
      (List.zipWith (· * ·) (byteCounts file) (leafDepths file).reverse).sum := by
    have even : (byteCounts file).reverse.length = (leafDepths file).length := by
      rw [List.length_reverse, same]
    have flip := List.reverse_zipWith (f := (· * ·)) even
    rw [List.reverse_reverse] at flip
    rw [← flip, List.sum_reverse, bitCount]
  have least : (List.zipWith (· * ·) (byteCounts file) (leafDepths file).reverse).sum ≤
      total ((leafWeights t).zip (t.depths 0)) := by
    apply zip_le
    · rw [List.map_fst_zip (Nat.le_of_eq (leafWeights_length t 0))]
      exact leaves
    · rw [List.map_snd_zip (Nat.le_of_eq (leafWeights_length t 0).symm)]
      exact sorted.symm.trans (List.reverse_perm _).symm
    · exact byteCounts_sorted file
    · exact List.pairwise_reverse.mpr ascending
  rw [reversed]
  rwa [total_leaves, Nat.mul_zero, Nat.add_zero] at least

/-- A code of one length is no shorter. -/
theorem bitCount_le (built : huffman (byteCounts file) = some t) {b : Nat}
    (few : file.dedup.length ≤ 2 ^ b) : bitCount file ≤ file.length * b := by
  obtain ⟨least, _⟩ := huffman_optimal (byteCounts_sorted file) (byteCounts_pos file) built
  have kinds : (byteCounts file).length = file.dedup.length := by
    rw [byteCounts, List.length_insertionSort, List.length_map]
  have fixed := least.fixed (b := b) (by rw [kinds]; exact few)
  rw [byteCounts_sum] at fixed
  exact Nat.le_trans (bitCount_le_cost built) fixed

end Codes

theorem kinds_le (file : List UInt8) : file.dedup.length ≤ 256 := by
  have distinct : (file.dedup.map UInt8.toNat).Nodup :=
    (List.nodup_dedup file).map fun a b same => UInt8.toNat_inj.mp same
  have inside : file.dedup.map UInt8.toNat ⊆ List.range 256 := by
    intro n mem
    obtain ⟨c, _, rfl⟩ := List.mem_map.mp mem
    exact List.mem_range.mpr c.toNat_lt
  have le := (List.subperm_of_subset distinct inside).length_le
  rwa [List.length_map, List.length_range] at le

theorem table_le {file : List UInt8} {codes : CodeMap}
    (short : ∀ c ∈ file, (codeOf codes c.toInt8).length ≤ 44) :
    (file.dedup.map fun c => 9 + (codeOf codes c.toInt8).length).sum ≤
      53 * file.dedup.length := by
  have each : ∀ n ∈ file.dedup.map fun c => 9 + (codeOf codes c.toInt8).length, n ≤ 53 := by
    intro n mem
    obtain ⟨c, there, rfl⟩ := List.mem_map.mp mem
    have few := short c (List.mem_dedup.mp there)
    omega
  have sum := List.sum_le_card_nsmul _ 53 each
  rw [List.length_map, smul_eq_mul, Nat.mul_comm] at sum
  exact sum

/-- The compressed file is as long as its table, the delimiter and the whole bytes of its bits.
No code has more than 44 bits, and if the file has at most `2 ^ b` different bytes, its bits are
at most `b` for each. So it grows by no more than the table, and a file of up to 51965 bytes
compresses to less than the 65536 that a download can bring back. -/
theorem deflate_size {file : List UInt8} (two : ∃ a ∈ file, ∃ b ∈ file, a ≠ b)
    (small : file.length < 2 ^ 31) :
    ∃ codes compressed, fileCodes file = some codes ∧ deflate file = some compressed ∧
      compressed.length = (file.dedup.map fun c => 9 + (codeOf codes c.toInt8).length).sum + 2 +
        (codeLength codes file + 7) / 8 ∧
      (∀ c ∈ file, (codeOf codes c.toInt8).length ≤ 44) ∧
      (∀ b, file.dedup.length ≤ 2 ^ b → codeLength codes file ≤ file.length * b) ∧
      compressed.length ≤ file.length + 53 * file.dedup.length + 2 ∧
      (file.length ≤ 51965 → compressed.length < 65536) := by
  obtain ⟨codes, coded⟩ := file_coded two small
  obtain ⟨t, _, _, _, _, _, _, _, exact_⟩ := file_generated two
  have built := exact_ small
  have short : ∀ c ∈ file, (codeOf codes c.toInt8).length ≤ 44 :=
    fun c mem => codeOf_le coded small built mem
  have bits : codeLength codes file = bitCount file := codeLength_eq coded
  have size : (combineBinaryFiles (encodeMapToBinaryFile codes) (packFile codes file).2).length =
      (file.dedup.map fun c => 9 + (codeOf codes c.toInt8).length).sum + 2 +
        (codeLength codes file + 7) / 8 := by
    rw [combineBinaryFiles, List.length_append, List.length_append, table_length coded,
      packFile_length fun c mem => coded.found mem, coded.bits_length, bits]
    rfl
  have table := table_le short
  have kinds := kinds_le file
  have eight : codeLength codes file ≤ file.length * 8 := by
    rw [bits]
    exact bitCount_le built kinds
  refine ⟨codes, _, coded.run, coded.deflate_eq, size, short, fun b few => ?_, ?_, fun few => ?_⟩
  · rw [bits]
    exact bitCount_le built few
  · rw [size]
    omega
  · rw [size]
    omega

/-- Two bytes take two table entries, the delimiter and one byte for their two bits. -/
theorem deflate_size_two_bytes : ∃ compressed, deflate [97, 98] = some compressed ∧
    compressed.length ≤ 2 + 53 * 2 + 2 := by
  have two : ∃ a ∈ ([97, 98] : List UInt8), ∃ b ∈ ([97, 98] : List UInt8), a ≠ b :=
    ⟨97, by decide, 98, by decide, by decide⟩
  obtain ⟨codes, compressed, _, packed, _, _, _, few, _⟩ := deflate_size two (by decide)
  exact ⟨compressed, packed, few⟩

end TFTP.CompressedSize
