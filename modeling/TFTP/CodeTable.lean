import TFTP.DecodedSuffix

/-!
# The code table in a compressed file

The table has no count of its entries and no mark of its own end. It is read back by its
lengths, and found again because no part of it reads like the delimiter: a key may be the
first byte of the delimiter, but what follows a key is a length, and no code of a file is
as long as the second byte says.
-/

namespace TFTP.CodeTable

open HuffmanCodes Compression Lossless DecodedSuffix

/-- The receiver finds every key, with what stands before the first NUL of its code. -/
theorem getElem?_cut (map : CodeMap) (k : Int8) :
    ((∅ : CodeMap).insertMany (map.toList.map cutAtNul))[k]? =
      (map[k]?).map fun code => code.takeWhile fun c => c ≠ 0 := by
  have keys : (map.toList.map cutAtNul).map Prod.fst = map.toList.map Prod.fst := by
    rw [List.map_map]
    rfl
  cases found : map[k]? with
  | some code =>
    have entry := Std.TreeMap.mem_toList_iff_getElem?_eq_some.mpr found
    have distinct : ((map.toList.map cutAtNul).map Prod.fst).Nodup := by
      rw [keys]
      exact toList_keys_nodup map
    exact getElem?_insertMany_of_mem ∅ distinct (List.mem_map_of_mem (f := cutAtNul) entry)
  | none =>
    rw [getElem?_insertMany_of_not_mem ∅, Std.TreeMap.getElem?_emptyc]
    · rfl
    · intro mem
      rw [keys] at mem
      obtain ⟨⟨l, code⟩, entry, rfl⟩ := List.mem_map.mp mem
      rw [Std.TreeMap.mem_toList_iff_getElem?_eq_some.mp entry] at found
      cases found

/-- A table is read back as the map it was written from if and only if no code holds a NUL. -/
theorem table_returns_iff {map : CodeMap}
    (short : ∀ (k : Int8) (code : List UInt8), map[k]? = some code → code.length < 2 ^ 63) :
    (∃ result, decodeBinaryFileToMap (encodeMapToBinaryFile map) = some result ∧
      result.Equiv map) ↔ ∀ (k : Int8) (code : List UInt8), map[k]? = some code → 0 ∉ code := by
  have lengths : ∀ entry ∈ map.toList, entry.2.length < 2 ^ 64 := by
    rintro ⟨k, code⟩ mem
    have lt := short k code (Std.TreeMap.mem_toList_iff_getElem?_eq_some.mp mem)
    exact Nat.lt_trans lt (by decide)
  rw [decode_table lengths]
  constructor
  · rintro ⟨result, same, equiv⟩ k code found nul
    obtain rfl := Option.some.inj same
    have cut := getElem?_cut map k
    rw [equiv.getElem?_eq, found] at cut
    have whole : code = code.takeWhile fun c => c ≠ 0 := Option.some.inj cut
    rw [whole] at nul
    have other := List.mem_takeWhile_imp nul
    exact absurd other (by decide)
  · intro clean
    refine ⟨_, rfl, Std.TreeMap.Equiv.of_forall_constGet?_eq fun k => ?_⟩
    refine (getElem?_cut map k).trans ?_
    cases found : map[k]? with
    | some code => exact congrArg some (Octets.takeWhile_clean (clean k code found))
    | none => rfl

/-- The codes 00, 01 and 1, the last two of keys that make up the delimiter as bytes. -/
def threeCodes : CodeMap :=
  (((∅ : CodeMap).insert 97 [48, 48]).insert 127 [48, 49]).insert (-2) [49]

theorem table_returns_iff_three_codes :
    (∃ result, decodeBinaryFileToMap (encodeMapToBinaryFile threeCodes) = some result ∧
      result.Equiv threeCodes) ↔
      ∀ (k : Int8) (code : List UInt8), threeCodes[k]? = some code → 0 ∉ code := by
  refine table_returns_iff fun k code found => ?_
  have size : code = [49] ∨ code = [48, 49] ∨ code = [48, 48] := by
    simp only [threeCodes, Std.TreeMap.getElem?_insert, Std.TreeMap.getElem?_emptyc] at found
    split_ifs at found <;> simp_all
  rcases size with rfl | rfl | rfl <;> decide

/-- The bytes stand at this place and at none before it. -/
def FirstAt (delimiter data : List UInt8) (i : Nat) : Prop :=
  delimiter <+: data.drop i ∧ ∀ j < i, ¬ delimiter <+: data.drop j

theorem separate_spec {delimiter data data1 data2 : List UInt8}
    (separated : separateBinaryFile delimiter data = some (data1, data2)) :
    data = data1 ++ delimiter ++ data2 ∧ FirstAt delimiter data data1.length := by
  induction data generalizing data1 with
  | nil =>
    rw [separateBinaryFile] at separated
    split at separated
    · rename_i empty
      obtain ⟨rfl, rfl⟩ := Prod.mk.inj (Option.some.inj separated)
      rw [empty]
      exact ⟨rfl, List.nil_prefix, fun j lt => absurd lt (Nat.not_lt_zero j)⟩
    · cases separated
  | cons c data ih =>
    rw [separateBinaryFile] at separated
    split at separated
    · rename_i here
      obtain ⟨rfl, rfl⟩ := Prod.mk.inj (Option.some.inj separated)
      refine ⟨?_, List.prefix_iff_eq_take.mpr here.symm, fun j lt => absurd lt (Nat.not_lt_zero j)⟩
      rw [List.nil_append]
      exact (List.take_append_drop delimiter.length _).symm.trans
        (congrArg (· ++ (c :: data).drop delimiter.length) here)
    · rename_i other
      obtain ⟨⟨rest, behind⟩, found, same⟩ := Option.map_eq_some_iff.mp separated
      obtain ⟨rfl, rfl⟩ := Prod.mk.inj same
      obtain ⟨split, at_, before⟩ := ih found
      refine ⟨congrArg (c :: ·) split, at_, ?_⟩
      intro j lt
      cases j with
      | zero => exact fun here => other (List.prefix_iff_eq_take.mp here).symm
      | succ j => exact before j (Nat.lt_of_succ_lt_succ lt)

/-- In the compressed form of a file the delimiter first stands behind the table, so the
receiver gets the table and the packed bits as they were written. -/
theorem delimiter_behind_table {file : List UInt8} (two : ∃ a ∈ file, ∃ b ∈ file, a ≠ b)
    (small : file.length < 2 ^ 31) :
    ∃ codes combined, fileCodes file = some codes ∧ deflate file = some combined ∧
      combined = encodeMapToBinaryFile codes ++ delimiter ++ (packFile codes file).2 ∧
      FirstAt delimiter combined (encodeMapToBinaryFile codes).length ∧
      separateBinaryFile delimiter combined =
        some (encodeMapToBinaryFile codes, (packFile codes file).2) := by
  obtain ⟨codes, coded⟩ := file_coded two small
  have undelimited : Undelimited (encodeMapToBinaryFile codes) := by
    apply encode_undelimited
    rintro ⟨k, code⟩ mem
    exact coded.decodable.short k code (Std.TreeMap.mem_toList_iff_getElem?_eq_some.mp mem)
  have separated := separate_combine undelimited (packFile codes file).2
  exact ⟨codes, _, coded.run, coded.deflate_eq, rfl, (separate_spec separated).2, separated⟩

/-- The first byte of the delimiter as a key, and the second as another. -/
theorem delimiter_behind_table_keys :
    ∃ codes combined, fileCodes [0x7F, 0xFE] = some codes ∧
      deflate [0x7F, 0xFE] = some combined ∧
      combined = encodeMapToBinaryFile codes ++ delimiter ++ (packFile codes [0x7F, 0xFE]).2 ∧
      FirstAt delimiter combined (encodeMapToBinaryFile codes).length ∧
      separateBinaryFile delimiter combined =
        some (encodeMapToBinaryFile codes, (packFile codes [0x7F, 0xFE]).2) :=
  delimiter_behind_table ⟨0x7F, by decide, 0xFE, by decide, by decide⟩ (by decide)

end TFTP.CodeTable
