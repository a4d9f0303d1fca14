import TFTP.DeflateFiles

/-!
# The file that is compressed

A file called `base.bin` is emptied before its second reading, and one called
`encoded_data.bin` gives way to the code table. The compressed file has a place of its own,
but it is written only if everything before it can be read back.
-/

namespace TFTP.DeflateDamage

open Octets DecodedSuffix ClientFiles DeflateFiles
open FileSystem (Name)

section Damage

variable (files : Files) (filename : Name) (file : List UInt8)

/-- The file is as before, so is everything that is not one of the three files written, and
the compressed file is the compressed form of the file. -/
structure Undamaged (after : Files) : Prop where
  input : after.bytes (inputPlace files filename) = some file
  others : ∀ l, l ≠ bitsPlace files filename → l ≠ tablePlace files →
    l ≠ compressedPlace files filename → after.entry l = files.entry l
  compressed : ∃ packed, Compression.deflate file = some packed ∧
    after.bytes (compressedPlace files filename) = some packed

/-- The file is read a second time. -/
def Packs : Prop := files.readable (inputPlace files filename) = true ∧
  files.canWrite (bitsPlace files filename) = true

instance : Decidable (Packs files filename) := by
  unfold Packs
  infer_instance

/-- Neither of the two intermediate files is the file, or the one is written as it was. -/
def KeepsInput : Prop :=
  if inputPlace files filename = tablePlace files ∧ files.canWrite (tablePlace files) = true then
    tableOf file = file
  else inputPlace files filename ≠ bitsPlace files filename

/-- The two intermediate files are two, or hold the same; the first is written, or holds
the table already. -/
def KeepsParts : Prop :=
  if bitsPlace files filename = tablePlace files then bitsOf file file = tableOf file
  else files.canWrite (tablePlace files) = true ∨
    files.bytes (tablePlace files) = some (tableOf file)

/-- The condition on the files before the run. Where a step is left out, the compressed file
must be there already. -/
structure Harmless : Prop where
  ends : Packs files filename → files.entry (tablePlace files) ≠ some .directory
  input : Packs files filename → KeepsInput files filename file
  compressed : if Packs files filename ∧ Joins files filename then KeepsParts files filename file
    else files.bytes (compressedPlace files filename) = Compression.deflate file

variable {files filename file} {r w : Bool}

theorem behind_input (entry : files.entry (inputPlace files filename) = some (.file file r w))
    (ne : file ≠ []) : behind files filename file (inputPlace files filename) = some file ↔
      KeepsInput files filename file := by
  unfold behind KeepsInput
  split_ifs with table bits
  · exact Option.some_inj
  · rw [again, if_pos bits, bitsOf_nil]
    exact ⟨fun same => absurd (Option.some.inj same).symm ne, fun other => absurd bits other⟩
  · rw [Files.bytes, entry]
    exact ⟨fun _ => bits, fun _ => rfl⟩

theorem again_of_keeps (keeps : KeepsInput files filename file)
    (parts : bitsPlace files filename ≠ tablePlace files) : again files filename file = file := by
  refine if_neg fun same => ?_
  unfold KeepsInput at keeps
  split_ifs at keeps with table
  · exact parts (same.symm.trans table.1)
  · exact keeps same

theorem combine_left_iff {a b c : List UInt8} :
    Compression.combineBinaryFiles a b = Compression.combineBinaryFiles a c ↔ b = c := by
  unfold Compression.combineBinaryFiles
  exact List.append_right_inj _

theorem combine_right_iff {a b c : List UInt8} :
    Compression.combineBinaryFiles a c = Compression.combineBinaryFiles b c ↔ a = b := by
  unfold Compression.combineBinaryFiles
  rw [List.append_left_inj, List.append_left_inj]

theorem joined_parts (writable : files.canWrite (bitsPlace files filename) = true)
    (table : files.entry (tablePlace files) ≠ some .directory)
    (joins : Joins files filename) (keeps : KeepsInput files filename file) :
    joined files filename file =
        some (Compression.combineBinaryFiles (tableOf file) (bitsOf file file)) ↔
      KeepsParts files filename file := by
  rw [joined, if_pos joins, behind_bits writable, KeepsParts]
  by_cases parts : bitsPlace files filename = tablePlace files
  · have first : behind files filename file (tablePlace files) = some (tableOf file) :=
      if_pos ⟨rfl, parts ▸ writable⟩
    rw [if_pos parts, if_pos parts, first]
    exact Option.some_inj.trans (combine_left_iff.trans eq_comm)
  · rw [if_neg parts, if_neg parts, again_of_keeps keeps parts]
    by_cases opens : files.canWrite (tablePlace files) = true
    · have first : behind files filename file (tablePlace files) = some (tableOf file) :=
        if_pos ⟨rfl, opens⟩
      rw [first]
      exact ⟨fun _ => Or.inl opens, fun _ => rfl⟩
    · have first : behind files filename file (tablePlace files) =
          files.bytes (tablePlace files) := by
        rw [behind, if_neg fun h => opens h.2, if_neg (Ne.symm parts)]
      obtain ⟨old, there⟩ := behind_table filename file table joins.1
      rw [first] at there
      rw [first, there]
      refine (Option.some_inj.trans combine_right_iff).trans ?_
      simp [opens]

theorem packs_reads (entry : files.entry (inputPlace files filename) = some (.file file r w))
    (packs : Packs files filename) : files.openRead (inputPlace files filename) = some file := by
  have other : files.entry (inputPlace files filename) ≠ some .directory := by simp [entry]
  rw [Files.openRead_eq other, if_pos packs.1, Files.bytes, entry]

/-- A run that reads the file only once changes nothing. -/
theorem deflate_once {codes : HuffmanCodes.CodeMap} (run : fileCodes file = some codes)
    (entry : files.entry (inputPlace files filename) = some (.file file r w))
    (once : ¬ Packs files filename) : deflate files filename = some files := by
  have other : files.entry (inputPlace files filename) ≠ some .directory := by simp [entry]
  by_cases reads : files.readable (inputPlace files filename) = true
  · refine deflate_unwritable run ?_ fun writable => once ⟨reads, writable⟩
    rw [Files.openRead_eq other, if_pos reads, Files.bytes, entry]
  · refine deflate_unread ?_
    rw [Files.openRead_eq other, if_neg reads]

theorem deflated_undamaged_iff {after : Files} (deflated : Deflated files filename file after)
    (entry : files.entry (inputPlace files filename) = some (.file file r w)) (ne : file ≠ [])
    {packed : List UInt8} (form : Compression.deflate file = some packed) :
    Undamaged files filename file after ↔
      KeepsInput files filename file ∧ joined files filename file = some packed := by
  have input := deflated.bytes _ (DeflateFiles.compressed_ne_input files filename).symm
  constructor
  · rintro ⟨kept, _, packed', form', there⟩
    rw [input] at kept
    rw [deflated.compressed, ← form', form] at there
    exact ⟨(behind_input entry ne).mp kept, there⟩
  · rintro ⟨keeps, there⟩
    refine ⟨?_, deflated.others, packed, form, deflated.compressed.trans there⟩
    rw [input]
    exact (behind_input entry ne).mpr keeps

/-- Compressing an existing file leaves it as it was, and its compressed form behind, if and
only if no step that is taken overwrites what a later one reads, and no step is left out that
is still to be done. -/
theorem undamaged_iff (files : Files) (filename : Name) {file : List UInt8} {r w : Bool}
    (entry : files.entry (inputPlace files filename) = some (.file file r w))
    (two : ∃ a ∈ file, ∃ b ∈ file, a ≠ b) :
    (∃ after, deflate files filename = some after ∧ Undamaged files filename file after) ↔
      Harmless files filename file := by
  obtain ⟨codes, run⟩ := VectorBounds.more_frequencies two
  have form := (deflate_parts run).1
  have ne : file ≠ [] := by
    rintro rfl
    obtain ⟨a, mem, _⟩ := two
    cases mem
  by_cases packs : Packs files filename
  · have reads := packs_reads entry packs
    by_cases table : files.entry (tablePlace files) = some .directory
    · rw [deflate_directory packs.2 run reads table]
      constructor
      · rintro ⟨_, same, _⟩
        cases same
      · exact fun harmless => absurd table (harmless.ends packs)
    · obtain ⟨after, ran, deflated⟩ := deflate_deflated packs.2 run reads table
      have same : (∃ after, deflate files filename = some after ∧
          Undamaged files filename file after) ↔ Undamaged files filename file after := by
        rw [ran]
        constructor
        · rintro ⟨_, same, undamaged⟩
          rwa [Option.some.inj same]
        · exact fun undamaged => ⟨after, rfl, undamaged⟩
      rw [same, deflated_undamaged_iff deflated entry ne form]
      constructor
      · rintro ⟨keeps, there⟩
        refine ⟨fun _ => table, fun _ => keeps, ?_⟩
        split_ifs with both
        · exact (joined_parts packs.2 table both.2 keeps).mp there
        · rw [joined, if_neg fun joins => both ⟨packs, joins⟩] at there
          rw [there, form]
      · rintro ⟨_, keeps, compressed⟩
        refine ⟨keeps packs, ?_⟩
        split_ifs at compressed with both
        · exact (joined_parts packs.2 table both.2 (keeps packs)).mpr compressed
        · rw [joined, if_neg fun joins => both ⟨packs, joins⟩, compressed, form]
  · rw [deflate_once run entry packs]
    constructor
    · rintro ⟨after, same, undamaged⟩
      obtain rfl := Option.some.inj same
      obtain ⟨packed, form', there⟩ := undamaged.compressed
      refine ⟨fun p => absurd p packs, fun p => absurd p packs, ?_⟩
      rw [if_neg fun both => packs both.1, there, form']
    · rintro ⟨_, _, compressed⟩
      rw [if_neg fun both => packs both.1, form] at compressed
      exact ⟨files, rfl, by rw [Files.bytes, entry], fun _ _ _ _ => rfl, _, form, compressed⟩

/-- A directory that holds one file. -/
def holding (filename : Name) (file : List UInt8) : Files where
  workingDirectory := []
  entry := fun l => if l = [filename] then some (.file file true true) else none
  creatable := fun _ => true
  removable := fun _ => true

theorem undamaged_iff_text :
    (∃ after, deflate (holding (text "a.txt") [97, 98]) (text "a.txt") = some after ∧
      Undamaged (holding (text "a.txt") [97, 98]) (text "a.txt") [97, 98] after) ↔
      Harmless (holding (text "a.txt") [97, 98]) (text "a.txt") [97, 98] :=
  undamaged_iff (r := true) (w := true) _ _ (by decide)
    ⟨97, by decide, 98, by decide, by decide⟩

/-- A file that ends in `.bin` is lost. -/
theorem bin_file_emptied : ¬ ∀ files filename file r w,
    files.entry (inputPlace files filename) = some (.file file r w) →
    (∃ a ∈ file, ∃ b ∈ file, a ≠ b) →
    ∃ after, deflate files filename = some after ∧ Undamaged files filename file after := by
  intro right
  have entry : (holding (text "x.bin") [97, 98]).entry
      (inputPlace (holding (text "x.bin") [97, 98]) (text "x.bin")) =
        some (.file [97, 98] true true) := by decide
  have two : ∃ a ∈ ([97, 98] : List UInt8), ∃ b ∈ ([97, 98] : List UInt8), a ≠ b :=
    ⟨97, by decide, 98, by decide, by decide⟩
  have packs : Packs (holding (text "x.bin") [97, 98]) (text "x.bin") := by decide
  obtain ⟨codes, run⟩ := VectorBounds.more_frequencies two
  obtain ⟨after, ran, undamaged⟩ := right _ _ _ _ _ entry two
  obtain ⟨after', ran', deflated⟩ :=
    deflate_deflated packs.2 run (packs_reads entry packs) (by decide)
  obtain rfl := Option.some.inj (ran.symm.trans ran')
  have keeps := ((deflated_undamaged_iff deflated entry (by decide)
    (deflate_parts run).1).mp undamaged).1
  unfold KeepsInput at keeps
  rw [if_neg (by decide)] at keeps
  exact keeps (by decide)

end Damage

end TFTP.DeflateDamage
