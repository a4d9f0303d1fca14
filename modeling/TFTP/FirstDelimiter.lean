import TFTP.CodeTable
import TFTP.DownloadVerdict

/-!
# The first delimiter

`separateBinaryFile` moves an index forward until the delimiter stands there or does not fit
any more, and tells the two apart by the index alone.
-/

namespace TFTP.FirstDelimiter

open Compression CodeTable ClientFiles
open FileSystem (Name)

/-- `while (delimiterIndex + delimiterSize <= combinedData.size())`, for at most `fuel`
rounds. No vector is so long that the sum wraps. -/
def search (delimiter combinedData : List UInt8) : Nat → Nat → Nat
  | 0, delimiterIndex => delimiterIndex
  | fuel + 1, delimiterIndex =>
    if delimiterIndex + delimiter.length ≤ combinedData.length then
      if (combinedData.drop delimiterIndex).take delimiter.length = delimiter then delimiterIndex
      else search delimiter combinedData fuel (delimiterIndex + 1)
    else delimiterIndex

/-- The two parts, if the index passes the test behind the loop. -/
def separate (delimiter combinedData : List UInt8) : Option (List UInt8 × List UInt8) :=
  let delimiterIndex := search delimiter combinedData (combinedData.length + 1) 0
  if delimiterIndex + delimiter.length > combinedData.length then none
  else some (combinedData.take delimiterIndex,
    combinedData.drop (delimiterIndex + delimiter.length))

def Occurs (delimiter data : List UInt8) : Prop := ∃ i, delimiter <+: data.drop i

theorem firstAt_unique {delimiter data : List UInt8} {i j : Nat} (hi : FirstAt delimiter data i)
    (hj : FirstAt delimiter data j) : i = j := by
  rcases Nat.lt_trichotomy i j with lt | same | gt
  · exact absurd hi.1 (hj.2 i lt)
  · exact same
  · exact absurd hj.1 (hi.2 j gt)

section Loop

variable {delimiter data : List UInt8} (nonempty : delimiter ≠ [])
include nonempty

theorem fits_of_occurrence {i : Nat} (here : delimiter <+: data.drop i) :
    i + delimiter.length ≤ data.length := by
  have size := here.length_le
  have pos := List.length_pos_iff.mpr nonempty
  rw [List.length_drop] at size
  omega

/-- With no occurrence before its index the loop stops at the first one, or behind the last
place where one would fit. -/
theorem search_spec (fuel i : Nat) (enough : data.length < i + fuel)
    (before : ∀ j < i, ¬ delimiter <+: data.drop j) :
    (search delimiter data fuel i + delimiter.length ≤ data.length ∧
      FirstAt delimiter data (search delimiter data fuel i)) ∨
    (data.length < search delimiter data fuel i + delimiter.length ∧ ¬ Occurs delimiter data) := by
  have behind : ∀ i, data.length < i + delimiter.length →
      (∀ j < i, ¬ delimiter <+: data.drop j) → ¬ Occurs delimiter data := by
    rintro i far before ⟨j, here⟩
    have fits := fits_of_occurrence nonempty here
    exact before j (by omega) here
  induction fuel generalizing i with
  | zero => exact Or.inr ⟨Nat.lt_add_right _ enough, behind i (Nat.lt_add_right _ enough) before⟩
  | succ fuel ih =>
    rw [search]
    split_ifs with fits here
    · exact Or.inl ⟨fits, List.prefix_iff_eq_take.mpr here.symm, before⟩
    · refine ih (i + 1) (by omega) fun j lt => ?_
      rcases Nat.lt_succ_iff_lt_or_eq.mp lt with earlier | rfl
      · exact before j earlier
      · exact fun found => here (List.prefix_iff_eq_take.mp found).symm
    · have far := Nat.lt_of_not_le fits
      exact Or.inr ⟨far, behind i far before⟩

theorem separateBinaryFile_none (none : separateBinaryFile delimiter data = none) :
    ¬ Occurs delimiter data := by
  rintro ⟨i, here⟩
  have fits := fits_of_occurrence nonempty here
  have pos := List.length_pos_iff.mpr nonempty
  induction data generalizing i with
  | nil =>
    rw [List.length_nil] at fits
    omega
  | cons c data ih =>
    rw [separateBinaryFile] at none
    split_ifs at none with first
    cases i with
    | zero => exact first (List.prefix_iff_eq_take.mp here).symm
    | succ i =>
      rw [List.length_cons] at fits
      exact ih (Option.map_eq_none_iff.mp none) i here (by omega)

/-- The index loop takes a file apart where the first occurrence is. -/
theorem separate_eq : separate delimiter data = separateBinaryFile delimiter data := by
  have enough : data.length < 0 + (data.length + 1) := by omega
  have stops := search_spec nonempty (data.length + 1) 0 enough
    fun j lt => absurd lt (Nat.not_lt_zero j)
  unfold separate
  cases found : separateBinaryFile delimiter data with
  | none =>
    rcases stops with ⟨_, first⟩ | ⟨far, _⟩
    · exact absurd ⟨_, first.1⟩ (separateBinaryFile_none nonempty found)
    · exact if_pos far
  | some sections =>
    obtain ⟨data1, data2⟩ := sections
    obtain ⟨joined, first⟩ := separate_spec found
    rcases stops with ⟨fits, first'⟩ | ⟨_, absent⟩
    · have left : data.take data1.length = data1 := by
        rw [joined, List.append_assoc, List.take_left]
      have right : data.drop (data1.length + delimiter.length) = data2 := by
        rw [joined, ← List.length_append, List.drop_left]
      rw [firstAt_unique first' first] at fits ⊢
      rw [if_neg (Nat.not_lt.mpr fits), left, right]
    · exact absurd ⟨_, first.1⟩ absent

end Loop

/-- A file is split at the first delimiter, and nothing is touched where there is none. -/
theorem splits_at_first (files : Files) (inputPath output1Path output2Path : Name)
    (delimiter data : List UInt8) (nonempty : delimiter ≠ [])
    (reads : files.openAte (files.resolve inputPath) = some (some data)) :
    (Occurs delimiter data → ∃ data1 data2 after, separate delimiter data = some (data1, data2) ∧
      data = data1 ++ delimiter ++ data2 ∧ (∀ j < data1.length, ¬ delimiter <+: data.drop j) ∧
      DownloadVerdict.separateBinaryFile files inputPath output1Path output2Path delimiter =
        some after ∧
      (files.canWrite (files.resolve output1Path) = true →
        files.canWrite (files.resolve output2Path) = true →
          after.bytes (files.resolve output2Path) = some data2 ∧
            (files.resolve output1Path ≠ files.resolve output2Path →
              after.bytes (files.resolve output1Path) = some data1))) ∧
    (¬ Occurs delimiter data → separate delimiter data = none ∧
      DownloadVerdict.separateBinaryFile files inputPath output1Path output2Path delimiter =
        some files) := by
  have file : files.entry (files.resolve inputPath) ≠ some .directory := by
    intro directory
    rw [Files.openAte_directory directory] at reads
    cases reads
  rw [Files.openAte_eq file] at reads
  rw [DownloadVerdict.separate_eq files delimiter file, Option.some.inj reads, Option.bind_some,
    separate_eq nonempty]
  cases found : separateBinaryFile delimiter data with
  | none =>
    have absent := separateBinaryFile_none nonempty found
    exact ⟨fun occurs => absurd occurs absent, fun _ => ⟨rfl, rfl⟩⟩
  | some sections =>
    obtain ⟨data1, data2⟩ := sections
    obtain ⟨joined, first⟩ := separate_spec found
    refine ⟨fun _ => ⟨data1, data2, _, rfl, joined, first.2, rfl, fun opens1 opens2 => ⟨?_, ?_⟩⟩,
      fun absent => absurd ⟨_, first.1⟩ absent⟩
    · rw [Files.putIf_bytes_self, opens1, Files.putIf_canWrite, opens2]
      rfl
    · intro apart
      rw [Files.putIf_bytes_of_ne apart, Files.putIf_bytes_self, opens1]
      rfl

/-- A delimiter that overlaps itself, at the very end of a file. -/
def overlapping : Files := DownloadVerdict.emptyDirectory.put [Octets.text "in.bin"] [1, 1, 1, 2]

theorem splits_at_first_overlapping : separate [1, 1, 2] [1, 1, 1, 2] = some ([1], []) ∧
    ∃ after, DownloadVerdict.separateBinaryFile overlapping (Octets.text "in.bin")
      (Octets.text "a.bin") (Octets.text "b.bin") [1, 1, 2] = some after ∧
      after.bytes [Octets.text "b.bin"] = some [] := by
  have separated : separate [1, 1, 2] [1, 1, 1, 2] = some ([1], []) := by decide
  obtain ⟨data1, data2, after, found, _, _, ran, written⟩ :=
    (splits_at_first overlapping (Octets.text "in.bin") (Octets.text "a.bin")
      (Octets.text "b.bin") [1, 1, 2] [1, 1, 1, 2] (by decide) (by decide)).1 ⟨1, by decide⟩
  obtain ⟨_, rfl⟩ := Prod.mk.inj (Option.some.inj (separated.symm.trans found))
  exact ⟨separated, after, ran, (written (by decide) (by decide)).1⟩

end TFTP.FirstDelimiter
