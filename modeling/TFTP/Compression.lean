import TFTP.HuffmanCodes
import Mathlib.Data.List.Chain

/-!
# Compressed files

`deflate` writes the code map, a delimiter and the packed bits of a file. The receiver of
a file separates the two parts, reads the map and the bits back and decodes. Files are
lists of bytes; the temporary files between the functions are the values passed on, and
`none` stands for a step with no defined result.
-/

namespace TFTP.Compression

open HuffmanCodes

/-- `while (inputFile.get(ch)) frequency[ch]++;` -/
def countFrequency (file : List UInt8) : Std.TreeMap Int8 Nat compare :=
  file.foldl (fun frequency ch => frequency.insert ch.toInt8 (frequency.getD ch.toInt8 0 + 1)) ∅

/-- A multimap puts a new pair behind those with the same key. -/
def insertPair (pair : Nat × Int8) : List (Nat × Int8) → List (Nat × Int8)
  | [] => [pair]
  | p :: pairs => if pair.1 < p.1 then pair :: p :: pairs else p :: insertPair pair pairs

def sortedOnBasisOfFrequency (frequency : Std.TreeMap Int8 Nat compare) : List (Nat × Int8) :=
  frequency.toList.foldl (fun sorted pair => insertPair (pair.2, pair.1) sorted) []

structure Packing where
  charWithHuffmanCodes : CodeMap
  packedBits : UInt8
  bitIndex : Nat
  output : List UInt8

def packBit (s : Packing) (k : UInt8) : Packing :=
  let packedBits := s.packedBits ||| (if k = one then 1 <<< s.bitIndex.toUInt8 else 0)
  if s.bitIndex + 1 = 8 then
    { s with packedBits := 0, bitIndex := 0, output := s.output ++ [packedBits] }
  else { s with packedBits, bitIndex := s.bitIndex + 1 }

/-- `charWithHuffmanCodes[c]`: a char without a code is given the empty one. -/
def subscript (codes : CodeMap) (c : Int8) : List UInt8 × CodeMap :=
  match codes[c]? with
  | some code => (code, codes)
  | none => ([], codes.insert c [])

def packChar (s : Packing) (c : UInt8) : Packing :=
  let (code, codes) := subscript s.charWithHuffmanCodes c.toInt8
  code.foldl packBit { s with charWithHuffmanCodes := codes }

def packFile (codes : CodeMap) (file : List UInt8) : CodeMap × List UInt8 :=
  let s := file.foldl packChar ⟨codes, 0, 0, []⟩
  (s.charWithHuffmanCodes, if 0 < s.bitIndex then s.output ++ [s.packedBits] else s.output)

/-- The eight bytes of a `size_t`, lowest first. -/
def sizeBytes (len : Nat) : List UInt8 := (List.range 8).map fun i => UInt8.ofNat (len / 256 ^ i)

def encodeEntry (entry : Int8 × List UInt8) : List UInt8 :=
  entry.1.toUInt8 :: (sizeBytes entry.2.length ++ entry.2)

def encodeMapToBinaryFile (map : CodeMap) : List UInt8 := map.toList.flatMap encodeEntry

def delimiter : List UInt8 := [0x7F, 0xFE]

def combineBinaryFiles (data1 data2 : List UInt8) : List UInt8 := data1 ++ delimiter ++ data2

def deflate (file : List UInt8) : Option (List UInt8) := do
  let sorted := sortedOnBasisOfFrequency (countFrequency file)
  let codes ← generateHuffmanCodes (sorted.map fun pair => Int.ofNat pair.1) (sorted.map (·.2))
  let (codes, bits) := packFile codes file
  return combineBinaryFiles (encodeMapToBinaryFile codes) bits

/-- The parts before and behind the first place that reads like the delimiter. -/
def separateBinaryFile (delimiter : List UInt8) : List UInt8 → Option (List UInt8 × List UInt8)
  | [] => if delimiter = [] then some ([], []) else none
  | c :: data =>
    if (c :: data).take delimiter.length = delimiter then
      some ([], (c :: data).drop delimiter.length)
    else (separateBinaryFile delimiter data).map fun (data1, data2) => (c :: data1, data2)

def loadSize (bytes : List UInt8) : Nat := bytes.foldr (fun b n => b.toNat + 256 * n) 0

/-- The loop of `decodeBinaryFileToMap`, for at most `fuel` entries. An entry cut short
is read into variables that hold no value. -/
def decodeEntries : Nat → List UInt8 → CodeMap → Option CodeMap
  | 0, _, _ => none
  | _ + 1, [], map => some map
  | fuel + 1, key :: bytes, map =>
    let len := loadSize (bytes.take 8)
    if bytes.length < 8 + len then none
    else do
      let code ← Octets.cString ((bytes.drop 8).take len ++ [0])
      decodeEntries fuel ((bytes.drop 8).drop len) (map.insert key.toInt8 code)

def decodeBinaryFileToMap (bytes : List UInt8) : Option CodeMap :=
  decodeEntries (bytes.length + 1) bytes ∅

def bitOf (untrackedBits : UInt8) (i : Nat) : UInt8 :=
  if untrackedBits &&& 1 <<< i.toUInt8 ≠ 0 then one else shuniya

def readBinaryFile (bytes : List UInt8) : List UInt8 :=
  bytes.flatMap fun untrackedBits => (List.range 8).map (bitOf untrackedBits)

def reverseValue (result : CodeMap) : Std.TreeMap (List UInt8) Int8 compare :=
  (∅ : Std.TreeMap (List UInt8) Int8 compare).insertMany (result.toList.map Prod.swap)

structure Inflating where
  currentCode : List UInt8
  output : List UInt8

def inflateChar (reversed : Std.TreeMap (List UInt8) Int8 compare) (s : Inflating) (c : UInt8) :
    Inflating :=
  match reversed[s.currentCode ++ [c]]? with
  | some ch => ⟨[], s.output ++ [ch.toUInt8]⟩
  | none => ⟨s.currentCode ++ [c], s.output⟩

def inflate (text : List UInt8) (result : CodeMap) : List UInt8 :=
  (text.foldl (inflateChar (reverseValue result)) ⟨[], []⟩).output

/-- What the client does with a file it has received. -/
def decompress (received : List UInt8) : Option (List UInt8) := do
  let (data1, data2) ← separateBinaryFile delimiter received
  let result ← decodeBinaryFileToMap data1
  return inflate (readBinaryFile data2) result

def roundTrip (file : List UInt8) : Option (List UInt8) := (deflate file).bind decompress

theorem shift_toNat {i : Nat} (lt : i < 8) : (1 <<< i.toUInt8 : UInt8).toNat = 2 ^ i := by
  have all : ∀ i < 8, (1 <<< i.toUInt8 : UInt8).toNat = 2 ^ i := by decide
  exact all i lt

theorem bitOf_eq (b : UInt8) {i : Nat} (lt : i < 8) : bitOf b i = bitChar (b.toNat.testBit i) := by
  have zero : b &&& 1 <<< i.toUInt8 = 0 ↔ b.toNat.testBit i = false := by
    rw [← UInt8.toNat_inj, UInt8.toNat_and, shift_toNat lt, Nat.and_two_pow]
    cases b.toNat.testBit i <;> simp
  unfold bitOf bitChar
  by_cases set : b.toNat.testBit i = true
  · rw [if_pos set, if_pos (fun none => by rw [zero.mp none] at set; cases set)]
  · rw [if_neg set, if_neg (not_not.mpr (zero.mpr (Bool.eq_false_iff.mpr set)))]

/-- The byte holds these bits, lowest first, and no others. -/
def HoldsBits (b : UInt8) (bits : List Bool) : Prop :=
  ∀ i < 8, b.toNat.testBit i = bits.getD i false

theorem holdsBits_zero : HoldsBits 0 [] := fun i _ => by simp

theorem HoldsBits.read {b : UInt8} {bits : List Bool} (holds : HoldsBits b bits)
    (le : bits.length ≤ 8) :
    (List.range 8).map (bitOf b) = chars (bits ++ List.replicate (8 - bits.length) false) := by
  apply List.ext_getElem
  · rw [List.length_map, List.length_range, chars_length, List.length_append,
      List.length_replicate, Nat.add_sub_cancel' le]
  · intro i lt _
    rw [List.length_map, List.length_range] at lt
    simp only [List.getElem_map, List.getElem_range, chars, bitOf_eq b lt, holds i lt]
    congr 1
    rw [List.getElem_append]
    split
    · rename_i old
      simp [List.getD_eq_getElem?_getD, List.getElem?_eq_getElem old]
    · rename_i new
      simp [List.getD_eq_getElem?_getD, List.getElem?_eq_none (Nat.le_of_not_lt new)]

theorem HoldsBits.add {b : UInt8} {bits : List Bool} (holds : HoldsBits b bits)
    (room : bits.length < 8) (bit : Bool) :
    HoldsBits (b ||| (if bitChar bit = one then 1 <<< bits.length.toUInt8 else 0))
      (bits ++ [bit]) := by
  intro i lt
  have set : (if bitChar bit = one then 1 <<< bits.length.toUInt8 else 0 : UInt8).toNat.testBit i =
      (bit && decide (bits.length = i)) := by
    cases bit with
    | false => exact Nat.zero_testBit i
    | true =>
      rw [if_pos (show bitChar true = one from rfl), shift_toNat room, Nat.testBit_two_pow]
      rfl
  rw [UInt8.toNat_or, Nat.testBit_or, holds i lt, set, List.getD_eq_getElem?_getD,
    List.getD_eq_getElem?_getD]
  rcases Nat.lt_trichotomy i bits.length with before | rfl | behind
  · rw [List.getElem?_append_left before, decide_eq_false (Nat.ne_of_gt before), Bool.and_false,
      Bool.or_false]
  · rw [List.getElem?_eq_none (Nat.le_refl _), List.getElem?_concat_length, decide_eq_true rfl,
      Bool.and_true]
    rfl
  · rw [List.getElem?_eq_none (Nat.le_of_lt behind), decide_eq_false (Nat.ne_of_lt behind),
      Bool.and_false, List.getElem?_eq_none]
    · rfl
    · rw [List.length_append]
      exact behind

/-- The bytes written so far and the started one hold the bits `done` and `part`. -/
structure Packed (done part : List Bool) (s : Packing) : Prop where
  output : readBinaryFile s.output = chars done
  bytes : 8 * s.output.length = done.length
  started : HoldsBits s.packedBits part
  bitIndex : s.bitIndex = part.length
  room : part.length < 8

theorem readBinaryFile_append (a b : List UInt8) :
    readBinaryFile (a ++ b) = readBinaryFile a ++ readBinaryFile b := List.flatMap_append

theorem readBinaryFile_singleton (b : UInt8) :
    readBinaryFile [b] = (List.range 8).map (bitOf b) := List.append_nil _

theorem packBit_packed {done part : List Bool} {s : Packing} (packed : Packed done part s)
    (bit : Bool) : (packBit s (bitChar bit)).charWithHuffmanCodes = s.charWithHuffmanCodes ∧
      ∃ done' part', done' ++ part' = done ++ part ++ [bit] ∧
        Packed done' part' (packBit s (bitChar bit)) := by
  have holds := packed.started.add packed.room bit
  rw [← packed.bitIndex] at holds
  have size : (part ++ [bit]).length = s.bitIndex + 1 := by
    rw [List.length_append, packed.bitIndex]
    rfl
  unfold packBit
  by_cases full : s.bitIndex + 1 = 8
  · simp only [if_pos full]
    refine ⟨trivial, done ++ (part ++ [bit]), [], by simp, ?_, ?_, holdsBits_zero, rfl, by decide⟩
    · rw [readBinaryFile_append, packed.output, readBinaryFile_singleton,
        holds.read (by omega), size, full, ← chars_append]
      simp
    · rw [List.length_append, List.length_append, size, full, ← packed.bytes, Nat.mul_add]
      rfl
  · simp only [if_neg full]
    refine ⟨trivial, done, part ++ [bit], by simp, packed.output, packed.bytes, holds, ?_, ?_⟩
    · exact size.symm
    · have := packed.room
      have := packed.bitIndex
      omega

theorem foldl_packBit_packed {done part : List Bool} {s : Packing} (packed : Packed done part s)
    (bits : List Bool) :
    ((chars bits).foldl packBit s).charWithHuffmanCodes = s.charWithHuffmanCodes ∧
      ∃ done' part', done' ++ part' = done ++ part ++ bits ∧
        Packed done' part' ((chars bits).foldl packBit s) := by
  induction bits generalizing done part s with
  | nil => exact ⟨rfl, done, part, (List.append_nil _).symm, packed⟩
  | cons bit bits ih =>
    obtain ⟨same, done₁, part₁, joined₁, packed₁⟩ := packBit_packed packed bit
    obtain ⟨same₂, done₂, part₂, joined₂, packed₂⟩ := ih packed₁
    refine ⟨same₂.trans same, done₂, part₂, ?_, packed₂⟩
    rw [joined₂, joined₁, List.append_assoc]
    rfl

/-- Files whose chars all have codes are packed code by code. -/
theorem foldl_packChar_packed {file : List UInt8} {code : UInt8 → List Bool} {done part : List Bool}
    {s : Packing} (packed : Packed done part s)
    (coded : ∀ c ∈ file, s.charWithHuffmanCodes[c.toInt8]? = some (chars (code c))) :
    (file.foldl packChar s).charWithHuffmanCodes = s.charWithHuffmanCodes ∧
      ∃ done' part', done' ++ part' = done ++ part ++ file.flatMap code ∧
        Packed done' part' (file.foldl packChar s) := by
  induction file generalizing done part s with
  | nil => exact ⟨rfl, done, part, (List.append_nil _).symm, packed⟩
  | cons c file ih =>
    have step : packChar s c = (chars (code c)).foldl packBit s := by
      simp only [packChar, subscript, coded c List.mem_cons_self]
    obtain ⟨same₁, done₁, part₁, joined₁, packed₁⟩ := foldl_packBit_packed packed (code c)
    rw [← step] at same₁ packed₁
    obtain ⟨same₂, done₂, part₂, joined₂, packed₂⟩ := ih packed₁ (by
      intro d mem
      rw [same₁]
      exact coded d (List.mem_cons_of_mem _ mem))
    refine ⟨same₂.trans same₁, done₂, part₂, ?_, packed₂⟩
    rw [joined₂, joined₁, List.append_assoc]
    rfl

/-- The unused bits of the last byte of `n` bits. -/
def unused (n : Nat) : Nat := (8 - n % 8) % 8

/-- Behind the flush the bytes hold all bits, and zeros up to a whole byte. -/
theorem Packed.flush {done part : List Bool} {s : Packing} (packed : Packed done part s) :
    readBinaryFile (if 0 < s.bitIndex then s.output ++ [s.packedBits] else s.output) =
      chars (done ++ part ++ List.replicate (unused (done ++ part).length) false) := by
  have index := packed.bitIndex
  have room := packed.room
  have bytes := packed.bytes
  by_cases some : 0 < s.bitIndex
  · have left : unused (done ++ part).length = 8 - part.length := by
      rw [List.length_append, unused]
      omega
    rw [if_pos some, readBinaryFile_append, packed.output, readBinaryFile_singleton,
      packed.started.read (Nat.le_of_lt room), left, ← chars_append, List.append_assoc]
  · have none : part = [] := List.eq_nil_of_length_eq_zero (by omega)
    have left : unused (done ++ part).length = 0 := by
      rw [none, List.append_nil, unused]
      omega
    rw [if_neg some, packed.output, left, none]
    simp

/-- What is packed is read back, with the unused bits of the last byte as zeros. -/
theorem readBinaryFile_packFile {codes : CodeMap} {file : List UInt8} {code : UInt8 → List Bool}
    (coded : ∀ c ∈ file, codes[c.toInt8]? = some (chars (code c))) :
    (packFile codes file).1 = codes ∧ readBinaryFile (packFile codes file).2 =
      chars (file.flatMap code ++ List.replicate (unused (file.flatMap code).length) false) := by
  have start : Packed [] [] ⟨codes, 0, 0, []⟩ := ⟨rfl, rfl, holdsBits_zero, rfl, by decide⟩
  obtain ⟨same, done, part, joined, packed⟩ := foldl_packChar_packed start coded
  rw [List.append_nil, List.nil_append] at joined
  refine ⟨same, ?_⟩
  rw [packFile, ← joined]
  exact packed.flush

theorem loadSize_bytes (k n : Nat) :
    loadSize ((List.range k).map fun i => UInt8.ofNat (n / 256 ^ i)) = n % 256 ^ k := by
  induction k generalizing n with
  | zero => simp [loadSize, Nat.mod_one]
  | succ k ih =>
    have shift : (List.range k).map (fun i => UInt8.ofNat (n / 256 ^ (i + 1))) =
        (List.range k).map fun i => UInt8.ofNat (n / 256 / 256 ^ i) := by
      apply List.map_congr_left
      intro i _
      rw [Nat.pow_succ', Nat.div_div_eq_div_mul]
    have low : (UInt8.ofNat (n / 256 ^ 0)).toNat = n % 256 := by
      rw [Nat.pow_zero, Nat.div_one, UInt8.toNat_ofNat']
    have rest := ih (n / 256)
    rw [← shift] at rest
    rw [List.range_succ_eq_map, List.map_cons, List.map_map]
    simp only [loadSize, List.foldr_cons] at rest ⊢
    rw [low, Nat.pow_succ', Nat.mod_mul]
    congr 2

theorem loadSize_sizeBytes {n : Nat} (lt : n < 2 ^ 64) : loadSize (sizeBytes n) = n := by
  rw [sizeBytes, loadSize_bytes]
  exact Nat.mod_eq_of_lt lt

theorem sizeBytes_length (n : Nat) : (sizeBytes n).length = 8 := by
  rw [sizeBytes, List.length_map, List.length_range]

/-- What a C string keeps of the entries. -/
def cutAtNul (entry : Int8 × List UInt8) : Int8 × List UInt8 :=
  (entry.1, entry.2.takeWhile fun c => c ≠ 0)

theorem take_sizeBytes (n : Nat) (rest : List UInt8) :
    (sizeBytes n ++ rest).take 8 = sizeBytes n := List.take_left' (sizeBytes_length n)

theorem drop_sizeBytes (n : Nat) (rest : List UInt8) : (sizeBytes n ++ rest).drop 8 = rest :=
  List.drop_left' (sizeBytes_length n)

/-- The first entry ends within the bytes, so neither of its reads meets the end. -/
theorem entry_inside (code rest : List UInt8) :
    ¬ (sizeBytes code.length ++ (code ++ rest)).length < 8 + code.length := by
  rw [List.length_append, List.length_append, sizeBytes_length]
  omega

theorem flatMap_encodeEntry_cons (entry : Int8 × List UInt8)
    (entries : List (Int8 × List UInt8)) : (entry :: entries).flatMap encodeEntry =
      entry.1.toUInt8 ::
        (sizeBytes entry.2.length ++ (entry.2 ++ entries.flatMap encodeEntry)) := by
  rw [List.flatMap_cons, encodeEntry, List.cons_append, List.append_assoc]

/-- Every length tells where the next key stands, whatever the codes hold. -/
theorem decodeEntries_encode {entries : List (Int8 × List UInt8)}
    (short : ∀ entry ∈ entries, entry.2.length < 2 ^ 64) {fuel : Nat}
    (enough : entries.length < fuel) (map : CodeMap) :
    decodeEntries fuel (entries.flatMap encodeEntry) map =
      some (map.insertMany (entries.map cutAtNul)) := by
  induction entries generalizing fuel map with
  | nil =>
    obtain ⟨fuel, rfl⟩ : ∃ f, fuel = f + 1 := ⟨fuel - 1, by omega⟩
    rfl
  | cons entry entries ih =>
    obtain ⟨fuel, rfl⟩ : ∃ f, fuel = f + 1 := ⟨fuel - 1, by omega⟩
    obtain ⟨key, code⟩ := entry
    rw [flatMap_encodeEntry_cons, decodeEntries]
    simp only [take_sizeBytes, loadSize_sizeBytes (short _ List.mem_cons_self),
      if_neg (entry_inside _ _), drop_sizeBytes, List.take_left, List.drop_left,
      Octets.cString_before_nul, bind, Option.bind_some]
    rw [ih (fun e mem => short e (List.mem_cons_of_mem _ mem)) (by
      rw [List.length_cons] at enough
      omega), List.map_cons, Std.TreeMap.insertMany_cons]
    rfl

theorem length_le_encode (entries : List (Int8 × List UInt8)) :
    entries.length ≤ (entries.flatMap encodeEntry).length := by
  induction entries with
  | nil => exact Nat.le_refl _
  | cons entry entries ih =>
    rw [List.flatMap_cons, List.length_append, encodeEntry, List.length_cons, List.length_cons]
    omega

/-- The receiver's map has the entries of the sender's map, each cut at its first NUL. -/
theorem decode_table {map : CodeMap} (short : ∀ entry ∈ map.toList, entry.2.length < 2 ^ 64) :
    decodeBinaryFileToMap (encodeMapToBinaryFile map) =
      some ((∅ : CodeMap).insertMany (map.toList.map cutAtNul)) := by
  apply decodeEntries_encode short
  exact Nat.lt_succ_of_le (length_le_encode _)

/-- A code that a `size_t` and a C string can hold. -/
def Writable (code : List UInt8) : Prop := code.length < 2 ^ 64 ∧ 0 ∉ code

theorem decode_encode {map : CodeMap} (writable : ∀ entry ∈ map.toList, Writable entry.2) :
    decodeBinaryFileToMap (encodeMapToBinaryFile map) =
      some ((∅ : CodeMap).insertMany map.toList) := by
  have whole : map.toList.map cutAtNul = map.toList := by
    refine (List.map_congr_left ?_).trans (List.map_id _)
    intro entry mem
    rw [cutAtNul, Octets.takeWhile_clean (writable entry mem).2]
    rfl
  rw [decode_table fun entry mem => (writable entry mem).1, whole]

/-- No place in the data reads like the delimiter. -/
def Undelimited (data : List UInt8) : Prop := data.IsChain fun a b => ¬ (a = 0x7F ∧ b = 0xFE)

theorem separate_combine {data1 : List UInt8} (undelimited : Undelimited data1)
    (data2 : List UInt8) :
    separateBinaryFile delimiter (combineBinaryFiles data1 data2) = some (data1, data2) := by
  induction data1 with
  | nil => rfl
  | cons c data ih =>
    have rest : separateBinaryFile delimiter (data ++ delimiter ++ data2) = some (data, data2) :=
      ih undelimited.of_cons
    have other : ¬ (c :: (data ++ delimiter ++ data2)).take delimiter.length = delimiter := by
      intro same
      obtain ⟨rfl, second⟩ := List.cons.inj same
      cases data with
      | nil => exact absurd (List.cons.inj second).1 (by decide)
      | cons d data =>
        obtain ⟨rfl, _⟩ := List.cons.inj second
        exact (List.isChain_cons_cons.mp undelimited).1 ⟨rfl, rfl⟩
    rw [combineBinaryFiles, List.cons_append, List.cons_append, separateBinaryFile, if_neg other,
      rest]
    rfl

theorem undelimited_cons {data : List UInt8} (none : 0xFE ∉ data) (key : UInt8) :
    Undelimited (key :: data) := by
  induction data generalizing key with
  | nil => exact List.IsChain.singleton key
  | cons c data ih =>
    refine List.isChain_cons_cons.mpr ⟨?_, ih (fun mem => none (List.mem_cons_of_mem _ mem)) c⟩
    rintro ⟨_, rfl⟩
    exact none List.mem_cons_self

/-- A code that is a nonempty string of binary digits, and short. -/
structure Short (code : List UInt8) : Prop where
  ne_nil : code ≠ []
  digits : ∀ c ∈ code, c = shuniya ∨ c = one
  length_lt : code.length < 254

theorem Short.not_mem {code : List UInt8} (short : Short code) {b : UInt8} (h0 : b ≠ shuniya)
    (h1 : b ≠ one) : b ∉ code := by
  intro mem
  rcases short.digits b mem with eq | eq
  · exact h0 eq
  · exact h1 eq

theorem Short.writable {code : List UInt8} (short : Short code) : Writable code :=
  ⟨Nat.lt_trans short.length_lt (by decide), short.not_mem (by decide) (by decide)⟩

theorem mem_sizeBytes {n : Nat} (lt : n < 256) {b : UInt8} (mem : b ∈ sizeBytes n) :
    b.toNat = n ∨ b.toNat = 0 := by
  obtain ⟨i, _, rfl⟩ := List.mem_map.mp mem
  rw [UInt8.toNat_ofNat']
  cases i with
  | zero =>
    left
    rw [Nat.pow_zero, Nat.div_one]
    exact Nat.mod_eq_of_lt lt
  | succ i =>
    right
    have small : n < 256 ^ (i + 1) :=
      Nat.lt_of_lt_of_le lt (Nat.le_self_pow (Nat.succ_ne_zero i) 256)
    rw [Nat.div_eq_of_lt small, Nat.zero_mod]

theorem encodeEntry_undelimited {entry : Int8 × List UInt8} (short : Short entry.2) :
    Undelimited (encodeEntry entry) := by
  apply undelimited_cons
  intro mem
  have lt := short.length_lt
  rcases List.mem_append.mp mem with mem | mem
  · rcases mem_sizeBytes (by omega) mem with eq | eq
    · have : (0xFE : UInt8).toNat = 254 := rfl
      omega
    · exact absurd eq (by decide)
  · exact short.not_mem (by decide) (by decide) mem

/-- The map file never reads like the delimiter. -/
theorem encode_undelimited {entries : List (Int8 × List UInt8)}
    (short : ∀ entry ∈ entries, Short entry.2) : Undelimited (entries.flatMap encodeEntry) := by
  induction entries with
  | nil => exact List.IsChain.nil
  | cons entry entries ih =>
    have first := short entry List.mem_cons_self
    rw [List.flatMap_cons]
    refine List.isChain_append.mpr ⟨encodeEntry_undelimited first,
      ih fun e mem => short e (List.mem_cons_of_mem _ mem), ?_⟩
    intro last lastMem next _ collision
    have mem : last ∈ entry.2 := by
      rw [encodeEntry, ← List.cons_append, List.getLast?_append_of_ne_nil _ first.ne_nil] at lastMem
      exact List.mem_of_getLast? lastMem
    rw [collision.1] at mem
    exact first.not_mem (by decide) (by decide) mem

theorem foldl_inflateChar (reversed : Std.TreeMap (List UInt8) Int8 compare)
    (text current output : List UInt8) :
    (text.foldl (inflateChar reversed) ⟨current, output⟩).output =
      output ++ (PrefixCode.decode (fun code => reversed[code]?) current text).map
        Int8.toUInt8 := by
  induction text generalizing current output with
  | nil => exact (List.append_nil _).symm
  | cons c text ih =>
    rw [List.foldl_cons, inflateChar, PrefixCode.decode]
    cases reversed[current ++ [c]]? with
    | some ch =>
      rw [ih, List.append_assoc]
      rfl
    | none => exact ih _ _

/-- The loop of `inflate` is the greedy decoder. -/
theorem inflate_eq_decode (text : List UInt8) (result : CodeMap) :
    inflate text result = (PrefixCode.decode (fun code => (reverseValue result)[code]?) [] text).map
      Int8.toUInt8 := foldl_inflateChar _ _ _ _

end TFTP.Compression
