import TFTP.CodeTable

/-!
# Damaged code tables

`decodeBinaryFileToMap` tests for the end of the file behind the key only. What its reads
ask for, get and leave in the variables is recorded here, for every file and for whatever
the variables held before. Nothing is missing exactly when the file is a sequence of whole
entries.
-/

namespace TFTP.DamagedTable

open HuffmanCodes Compression

/-- One turn of the loop: what it reads, and what it makes of it. -/
structure Round where
  key : UInt8
  size : List UInt8
  remaining : Nat
  len : Nat
  string : List UInt8
  deriving DecidableEq, Repr

/-- The reads of a length and a string. `memory` is what stands in `len` before. Nothing is
read by a stream that has failed on the length, nor for a length that is negative as a
`streamsize`. -/
def readRound (memory : List UInt8) (key : UInt8) (bytes : List UInt8) : Round :=
  let size := bytes.take 8
  let len := loadSize ((size ++ memory.drop size.length).take 8)
  let string := if bytes.length < 8 ∨ 2 ^ 63 ≤ len then [] else (bytes.drop 8).take len
  ⟨key, size, (bytes.drop 8).length, len, string⟩

/-- The loop, for at most `fuel` turns: a read that wants more than there is sets `eof`. -/
def readRounds (memory : List UInt8) : Nat → List UInt8 → List Round
  | 0, _ => []
  | _ + 1, [] => []
  | fuel + 1, key :: bytes =>
    let round := readRound memory key bytes
    if bytes.length < 8 + round.len ∨ 2 ^ 63 ≤ round.len then [round]
    else round :: readRounds memory fuel ((bytes.drop 8).drop round.len)

def rounds (memory bytes : List UInt8) : List Round := readRounds memory (bytes.length + 1) bytes

/-- `char buffer[len + 1]`, in a `size_t`. -/
def bufferSize (len : Nat) : Nat := (len + 1) % 2 ^ 64

/-- `std::string(buffer)`: `stack` is what the buffer holds before the read. -/
def Round.entry (stack : List UInt8) (r : Round) : Int8 × List UInt8 :=
  cutAtNul (r.key.toInt8, (r.string ++ stack.drop r.string.length).take r.len)

def decodedMap (memory stack bytes : List UInt8) : CodeMap :=
  (∅ : CodeMap).insertMany ((rounds memory bytes).map (Round.entry stack))

/-- Nothing is used that was not read. -/
structure NothingMissing (bytes : List UInt8) : Prop where
  sizes : ∀ memory, ∀ r ∈ rounds memory bytes, r.size.length = 8
  lengths : ∀ memory, ∀ r ∈ rounds memory bytes, r.len ≤ r.remaining
  strings : ∀ memory, ∀ r ∈ rounds memory bytes, r.string.length = r.len
  indices : ∀ memory, ∀ r ∈ rounds memory bytes, r.len < bufferSize r.len
  present : ∀ (memory stack : List UInt8) (key : Int8) (code : List UInt8),
    (decodedMap memory stack bytes)[key]? = some code →
      ∃ before string after, bytes = before ++ encodeEntry (key, string) ++ after ∧
        code = string.takeWhile fun c => c ≠ 0

/-- Entries from end to end, each with a length that a read can ask for. -/
def Entries (bytes : List UInt8) : Prop :=
  ∃ entries : List (Int8 × List UInt8), (∀ e ∈ entries, e.2.length < 2 ^ 63) ∧
    bytes = entries.flatMap encodeEntry

/-- What a turn makes of an entry with `remaining` bytes behind its length. -/
def wholeRound (remaining : Nat) (entry : Int8 × List UInt8) : Round :=
  ⟨entry.1.toUInt8, sizeBytes entry.2.length, remaining, entry.2.length, entry.2⟩

def Whole (r : Round) (entry : Int8 × List UInt8) : Prop :=
  ∃ remaining, entry.2.length ≤ remaining ∧ r = wholeRound remaining entry

theorem readRound_whole (memory : List UInt8) {entry : Int8 × List UInt8}
    (short : entry.2.length < 2 ^ 63) (rest : List UInt8) :
    readRound memory entry.1.toUInt8 (sizeBytes entry.2.length ++ (entry.2 ++ rest)) =
      wholeRound (entry.2 ++ rest).length entry := by
  have fits : entry.2.length < 2 ^ 64 := Nat.lt_trans short (by decide)
  have long : ¬ ((sizeBytes entry.2.length ++ (entry.2 ++ rest)).length < 8 ∨
      2 ^ 63 ≤ entry.2.length) := by
    rw [List.length_append, sizeBytes_length]
    omega
  simp only [readRound, wholeRound, take_sizeBytes, drop_sizeBytes, loadSize_sizeBytes fits,
    if_neg long, List.take_left]

theorem entry_whole (stack : List UInt8) (remaining : Nat) (entry : Int8 × List UInt8) :
    (wholeRound remaining entry).entry stack = cutAtNul entry := by
  simp only [Round.entry, wholeRound, List.take_left]
  rfl

/-- Of a sequence of entries every turn reads one, whatever the variables hold. -/
theorem readRounds_entries {entries : List (Int8 × List UInt8)}
    (short : ∀ e ∈ entries, e.2.length < 2 ^ 63) (memory : List UInt8) {fuel : Nat}
    (enough : entries.length < fuel) :
    List.Forall₂ Whole (readRounds memory fuel (entries.flatMap encodeEntry)) entries := by
  induction entries generalizing fuel with
  | nil =>
    obtain ⟨fuel, rfl⟩ : ∃ f, fuel = f + 1 := ⟨fuel - 1, by omega⟩
    exact List.Forall₂.nil
  | cons entry entries ih =>
    obtain ⟨fuel, rfl⟩ : ∃ f, fuel = f + 1 := ⟨fuel - 1, by omega⟩
    rw [List.length_cons] at enough
    have fits := short entry List.mem_cons_self
    have whole : ¬ ((sizeBytes entry.2.length ++ (entry.2 ++ entries.flatMap encodeEntry)).length <
        8 + entry.2.length ∨ 2 ^ 63 ≤ entry.2.length) :=
      not_or.mpr ⟨entry_inside _ _, Nat.not_le.mpr fits⟩
    have len : ∀ n, (wholeRound n entry).len = entry.2.length := fun _ => rfl
    rw [flatMap_encodeEntry_cons, readRounds]
    simp only [readRound_whole memory fits, len, if_neg whole, drop_sizeBytes, List.drop_left]
    refine List.Forall₂.cons ⟨_, ?_, rfl⟩
      (ih (fun e mem => short e (List.mem_cons_of_mem _ mem)) (by omega))
    rw [List.length_append]
    exact Nat.le_add_right _ _

/-- What is found in a map was inserted last, or was there. -/
theorem mem_of_getElem?_insertMany {pairs : List (Int8 × List UInt8)} {map : CodeMap} {key : Int8}
    {code : List UInt8} (found : (map.insertMany pairs)[key]? = some code) :
    (key, code) ∈ pairs ∨ map[key]? = some code := by
  induction pairs generalizing map with
  | nil => exact Or.inr found
  | cons pair pairs ih =>
    rw [Std.TreeMap.insertMany_cons] at found
    rcases ih found with later | before
    · exact Or.inl (List.mem_cons_of_mem _ later)
    · rw [Std.TreeMap.getElem?_insert] at before
      split at before
      · rename_i same
        have key' : pair.1 = key := Std.LawfulEqCmp.eq_of_compare same
        have code' : pair.2 = code := Option.some.inj before
        rw [← key', ← code']
        exact Or.inl List.mem_cons_self
      · exact Or.inr before

/-- Below `2 ^ 63` there is an index for the NUL. -/
theorem lt_bufferSize {len : Nat} (lt : len < 2 ^ 63) : len < bufferSize len := by
  unfold bufferSize
  omega

theorem rounds_entries {entries : List (Int8 × List UInt8)}
    (short : ∀ e ∈ entries, e.2.length < 2 ^ 63) (memory : List UInt8) :
      List.Forall₂ Whole (rounds memory (entries.flatMap encodeEntry)) entries :=
  readRounds_entries short memory (Nat.lt_succ_of_le (length_le_encode entries))

theorem mem_rounds_entries {entries : List (Int8 × List UInt8)} {rs : List Round}
    (read : List.Forall₂ Whole rs entries) {r : Round} (mem : r ∈ rs) :
    ∃ e ∈ entries, Whole r e := by
  induction read with
  | nil => cases mem
  | cons here _ ih =>
    rcases List.mem_cons.mp mem with rfl | later
    · exact ⟨_, List.mem_cons_self, here⟩
    · obtain ⟨e, found, whole⟩ := ih later
      exact ⟨e, List.mem_cons_of_mem _ found, whole⟩

theorem map_entry_rounds {entries : List (Int8 × List UInt8)} {rs : List Round}
    (read : List.Forall₂ Whole rs entries) (stack : List UInt8) :
    rs.map (Round.entry stack) = entries.map cutAtNul := by
  induction read with
  | nil => rfl
  | cons here _ ih =>
    obtain ⟨remaining, _, rfl⟩ := here
    rw [List.map_cons, List.map_cons, ih, entry_whole]

theorem Entries.nothingMissing {bytes : List UInt8} (whole : Entries bytes) :
    NothingMissing bytes := by
  obtain ⟨entries, short, rfl⟩ := whole
  have read := rounds_entries short
  constructor
  · intro memory r mem
    obtain ⟨e, _, remaining, _, rfl⟩ := mem_rounds_entries (read memory) mem
    exact sizeBytes_length _
  · intro memory r mem
    obtain ⟨e, _, remaining, le, rfl⟩ := mem_rounds_entries (read memory) mem
    exact le
  · intro memory r mem
    obtain ⟨e, _, remaining, _, rfl⟩ := mem_rounds_entries (read memory) mem
    rfl
  · intro memory r mem
    obtain ⟨e, here, remaining, _, rfl⟩ := mem_rounds_entries (read memory) mem
    exact lt_bufferSize (short e here)
  · intro memory stack key code has
    rw [decodedMap, map_entry_rounds (read memory)] at has
    rcases mem_of_getElem?_insertMany has with mem | none
    · obtain ⟨⟨k, string⟩, here, cut⟩ := List.mem_map.mp mem
      obtain ⟨rfl, rfl⟩ := Prod.mk.inj cut
      obtain ⟨before, after, rfl⟩ := List.append_of_mem here
      refine ⟨before.flatMap encodeEntry, string, after.flatMap encodeEntry, ?_, rfl⟩
      rw [List.flatMap_append, List.flatMap_cons, List.append_assoc]
    · rw [Std.TreeMap.getElem?_emptyc] at none
      cases none

/-- Such a file is decoded to the map that `decodeBinaryFileToMap` is said to return. -/
theorem Entries.decoded {bytes : List UInt8} (whole : Entries bytes) (memory stack : List UInt8) :
    decodeBinaryFileToMap bytes = some (decodedMap memory stack bytes) := by
  obtain ⟨entries, short, rfl⟩ := whole
  rw [decodedMap, map_entry_rounds (rounds_entries short memory)]
  apply decodeEntries_encode fun e mem => Nat.lt_trans (short e mem) (by decide)
  exact Nat.lt_succ_of_le (length_le_encode entries)

theorem sizeBytes_loadSize (bytes : List UInt8) :
    (List.range bytes.length).map (fun i => UInt8.ofNat (loadSize bytes / 256 ^ i)) = bytes := by
  induction bytes with
  | nil => rfl
  | cons b bytes ih =>
    have load : loadSize (b :: bytes) = b.toNat + 256 * loadSize bytes := rfl
    have lt := b.toNat_lt
    have low : UInt8.ofNat (loadSize (b :: bytes) / 256 ^ 0) = b := by
      apply UInt8.toNat_inj.mp
      rw [load, Nat.pow_zero, Nat.div_one, UInt8.toNat_ofNat']
      omega
    have rest : (List.range bytes.length).map
        (fun i => UInt8.ofNat (loadSize (b :: bytes) / 256 ^ (i + 1))) = bytes := by
      refine Eq.trans (List.map_congr_left fun i _ => ?_) ih
      have shift : (b.toNat + 256 * loadSize bytes) / 256 = loadSize bytes := by omega
      rw [load, Nat.pow_succ', ← Nat.div_div_eq_div_mul, shift]
    rw [List.length_cons, List.range_succ_eq_map, List.map_cons, List.map_map, low]
    exact congrArg (b :: ·) rest

theorem first_round (memory : List UInt8) (fuel : Nat) (key : UInt8) (bytes : List UInt8) :
    readRound memory key bytes ∈ readRounds memory (fuel + 1) (key :: bytes) := by
  rw [readRounds]
  split
  · exact List.mem_cons_self
  · exact List.mem_cons_self

/-- A whole turn has read its length from the file, and there was that much behind it. -/
theorem readRound_full {memory bytes : List UInt8} {key : UInt8}
    (size : (readRound memory key bytes).size.length = 8)
    (inside : (readRound memory key bytes).len ≤ (readRound memory key bytes).remaining)
    (full : (readRound memory key bytes).string.length = (readRound memory key bytes).len) :
    (readRound memory key bytes).len = loadSize (bytes.take 8) ∧
      loadSize (bytes.take 8) < 2 ^ 63 ∧ 8 + loadSize (bytes.take 8) ≤ bytes.length := by
  have eight : (bytes.take 8).length = 8 := size
  have len : (readRound memory key bytes).len = loadSize (bytes.take 8) := by
    simp only [readRound, eight]
    rw [List.take_left' eight]
  have left : loadSize (bytes.take 8) ≤ bytes.length - 8 := by
    rw [← len, ← List.length_drop]
    exact inside
  rw [List.length_take] at eight
  refine ⟨len, ?_, by omega⟩
  by_contra negative
  have none : (readRound memory key bytes).string = [] := by
    apply if_pos
    right
    change 2 ^ 63 ≤ (readRound memory key bytes).len
    rw [len]
    exact Nat.le_of_not_lt negative
  rw [none, len, List.length_nil] at full
  omega

/-- The bytes of a whole turn are an entry. -/
theorem encodeEntry_split (key : UInt8) {bytes : List UInt8}
    (inside : 8 + loadSize (bytes.take 8) ≤ bytes.length) : key :: bytes =
      encodeEntry (key.toInt8, (bytes.drop 8).take (loadSize (bytes.take 8))) ++
        (bytes.drop 8).drop (loadSize (bytes.take 8)) := by
  have string : ((bytes.drop 8).take (loadSize (bytes.take 8))).length =
      loadSize (bytes.take 8) := by
    rw [List.length_take, List.length_drop]
    omega
  have eight : min 8 bytes.length = 8 := by omega
  have written : sizeBytes (loadSize (bytes.take 8)) = bytes.take 8 := by
    have same := sizeBytes_loadSize (bytes.take 8)
    rw [List.length_take, eight] at same
    exact same
  rw [encodeEntry, string, written, List.cons_append, List.append_assoc, List.take_append_drop,
    List.take_append_drop, UInt8.toUInt8_toInt8]

/-- When every turn is whole, what was read is a sequence of entries. -/
theorem entries_of_readRounds {memory : List UInt8} {fuel : Nat} {bytes : List UInt8}
    (enough : bytes.length < fuel) (whole : ∀ r ∈ readRounds memory fuel bytes,
      r.size.length = 8 ∧ r.len ≤ r.remaining ∧ r.string.length = r.len) : Entries bytes := by
  induction fuel generalizing bytes with
  | zero => omega
  | succ fuel ih =>
    cases bytes with
    | nil =>
      refine ⟨[], ?_, rfl⟩
      intro e mem
      cases mem
    | cons key bytes =>
      rw [List.length_cons] at enough
      obtain ⟨size, within, full⟩ := whole _ (first_round memory fuel key bytes)
      obtain ⟨len, asked, inside⟩ := readRound_full size within full
      have more : ¬ (bytes.length < 8 + (readRound memory key bytes).len ∨
          2 ^ 63 ≤ (readRound memory key bytes).len) := by
        rw [len]
        omega
      have rest : Entries ((bytes.drop 8).drop (loadSize (bytes.take 8))) := by
        refine ih ?_ fun r mem => whole r ?_
        · rw [List.length_drop, List.length_drop]
          omega
        · rw [readRounds]
          simp only [if_neg more]
          rw [len]
          exact List.mem_cons_of_mem _ mem
      obtain ⟨entries, short, joined⟩ := rest
      refine ⟨(key.toInt8, (bytes.drop 8).take (loadSize (bytes.take 8))) :: entries, ?_, ?_⟩
      · intro e mem
        rcases List.mem_cons.mp mem with rfl | mem
        · exact Nat.lt_of_le_of_lt (List.length_take_le _ _) asked
        · exact short e mem
      · rw [List.flatMap_cons, ← joined]
        exact encodeEntry_split key inside

/-- Nothing is missing if and only if the bytes are entries from end to end. -/
theorem nothing_missing_iff (bytes : List UInt8) : NothingMissing bytes ↔ Entries bytes := by
  constructor
  · intro missing
    have enough : bytes.length < bytes.length + 1 := Nat.lt_succ_self _
    have whole : ∀ r ∈ readRounds [] (bytes.length + 1) bytes,
        r.size.length = 8 ∧ r.len ≤ r.remaining ∧ r.string.length = r.len :=
      fun r mem => ⟨missing.sizes [] r mem, missing.lengths [] r mem, missing.strings [] r mem⟩
    exact entries_of_readRounds enough whole
  · exact Entries.nothingMissing

/-- A file cut behind its first key: the length is what stood in the variable, here 3, and
the string what stood in the buffer. -/
theorem key_alone_decoded : rounds [3] [65] = [⟨65, [], 0, 3, []⟩] ∧
    Round.entry [97, 98, 99] ⟨65, [], 0, 3, []⟩ = (65, [97, 98, 99]) ∧ ¬ NothingMissing [65] := by
  have read : rounds [3] [65] = [⟨65, [], 0, 3, []⟩] := by decide
  refine ⟨read, by decide, fun missing => ?_⟩
  have size := missing.sizes [3] ⟨65, [], 0, 3, []⟩ (by rw [read]; exact List.mem_cons_self)
  cases size

end TFTP.DamagedTable
