import TFTP.ClientFiles
import TFTP.VectorBounds

/-!
# What compression does to the files

`deflate` reads a file twice and writes three: the packed bits under the file's name with
another ending, the code table under a name of its own, and both together. A file that
cannot be opened is passed over without a word to the caller. Two of the names may be the
file's own, and the first two may be the same.
-/

namespace TFTP.DeflateFiles

open Octets HuffmanCodes Compression Lossless DecodedSuffix ClientFiles
open FileSystem (Name slash)

/-- Nothing is written to a stream that is not open. -/
def encodeMapToBinaryFile (files : Files) (myMap : CodeMap) (filename : Name) : Files :=
  let outFileBin := files.resolve (filename ++ text ".bin")
  match files.openWrite outFileBin with
  | some opened => opened.put outFileBin (Compression.encodeMapToBinaryFile myMap)
  | none => files

def combineBinaryFiles (files : Files) (file1Path file2Path outputPath : Name) :
    Option Files := do
  match ← files.openAte (files.resolve file1Path) with
  | none => return files
  | some data1 =>
    match ← files.openAte (files.resolve file2Path) with
    | none => return files
    | some data2 =>
      match files.openWrite (files.resolve outputPath) with
      | none => return files
      | some opened =>
        return opened.put (files.resolve outputPath) (Compression.combineBinaryFiles data1 data2)

theorem encodeMap_eq (files : Files) (myMap : CodeMap) (filename : Name) :
    encodeMapToBinaryFile files myMap filename =
      files.putIf true (files.resolve (filename ++ text ".bin"))
        (Compression.encodeMapToBinaryFile myMap) := Files.openWrite_put

theorem combine_eq (files : Files) {file1Path file2Path : Name} (outputPath : Name)
    (file1 : files.entry (files.resolve file1Path) ≠ some .directory)
    (file2 : files.entry (files.resolve file2Path) ≠ some .directory) :
    combineBinaryFiles files file1Path file2Path outputPath =
      some (match files.openRead (files.resolve file1Path),
          files.openRead (files.resolve file2Path) with
        | some data1, some data2 =>
          files.putIf true (files.resolve outputPath) (Compression.combineBinaryFiles data1 data2)
        | _, _ => files) := by
  simp only [combineBinaryFiles, Files.openAte_eq file1, Files.openAte_eq file2, bind,
    Option.bind_some]
  cases files.openRead (files.resolve file1Path) with
  | none => rfl
  | some data1 =>
    cases files.openRead (files.resolve file2Path) with
    | none => rfl
    | some data2 =>
      simp only [← Files.openWrite_put]
      cases files.openWrite (files.resolve outputPath) <;> rfl

def bitsName (filename : Name) : Name := filenameWithoutExtension filename ++ text ".bin"

/-- The file is opened for its second reading before the file of the bits is emptied. -/
def deflate (files : Files) (filename : Name) : Option Files :=
  match files.openRead (files.resolve filename) with
  | none => some files
  | some file => do
    let codes ← fileCodes file
    match files.openWrite (files.resolve (bitsName filename)) with
    | none => return files
    | some opened =>
      let (codes, bits) := packFile codes ((opened.openRead (files.resolve filename)).getD [])
      let packed := opened.put (files.resolve (bitsName filename)) bits
      combineBinaryFiles (encodeMapToBinaryFile packed codes (text "encoded_data"))
        (text "encoded_data.bin") (bitsName filename) (Requests.compressedName filename)

section Places

variable (files : Files) (filename : Name)

def inputPlace : Place := files.resolve filename

def bitsPlace : Place := files.resolve (bitsName filename)

def tablePlace : Place := files.resolve (text "encoded_data.bin")

def compressedPlace : Place := files.resolve (Requests.compressedName filename)

theorem compressed_ne_input : compressedPlace files filename ≠ inputPlace files filename :=
  ClientFiles.compressed_ne_input files filename

theorem compressed_ne_bits : compressedPlace files filename ≠ bitsPlace files filename :=
  resolve_ne_of_ne files (filenameWithoutExtension filename) (by decide) (by decide) (by decide)
    (by decide) (by decide)

theorem compressed_ne_table : compressedPlace files filename ≠ tablePlace files :=
  resolve_ne_of_suffix files (filenameWithoutExtension filename) (by decide) (by decide)
    (by decide) (by decide) (by decide)

end Places

/-- The code table of a file. -/
def tableOf (file : List UInt8) : List UInt8 :=
  match fileCodes file with
  | some codes => Compression.encodeMapToBinaryFile codes
  | none => []

/-- The packed bits of what is read of a file the second time. -/
def bitsOf (file again : List UInt8) : List UInt8 :=
  match fileCodes file with
  | some codes => (packFile codes again).2
  | none => []

section Parts

variable {file : List UInt8} {codes : CodeMap}

theorem deflate_parts (run : fileCodes file = some codes) :
    Compression.deflate file =
      some (Compression.combineBinaryFiles (tableOf file) (bitsOf file file)) ∧
      ∀ again, (∀ c ∈ again, c ∈ file) → packFile codes again = (codes, bitsOf file again) := by
  have found : ∀ c ∈ file, codes[c.toInt8]? = some (chars (codeBits codes c)) := by
    intro c mem
    obtain ⟨_, _, map, generated, _, _, words, _⟩ :=
      file_generated (VectorBounds.distinct_of_in_bounds ⟨codes, run⟩)
    obtain rfl : map = codes := Option.some.inj (generated.symm.trans run)
    obtain ⟨w, _, code⟩ := words.word (List.mem_reverse.mpr (mem_sortedPairs file mem))
    rw [codeBits_eq code]
    exact code
  have packs : ∀ again, (∀ c ∈ again, c ∈ file) →
      packFile codes again = (codes, bitsOf file again) := by
    intro again inside
    have same := (readBinaryFile_packFile fun c mem => found c (inside c mem)).1
    simp only [bitsOf, run]
    exact Prod.ext same rfl
  refine ⟨?_, packs⟩
  have whole : Compression.deflate file = (fileCodes file).bind fun codes =>
      some (Compression.combineBinaryFiles
        (Compression.encodeMapToBinaryFile (packFile codes file).1) (packFile codes file).2) := rfl
  rw [whole, run, Option.bind_some, packs file fun _ mem => mem]
  simp only [tableOf, run]

theorem bitsOf_nil (file : List UInt8) : bitsOf file [] = [] := by
  unfold bitsOf
  split <;> rfl

end Parts

section Writing

variable (files : Files) (filename : Name) (file : List UInt8)

/-- The second reading finds nothing where the file has just been emptied. -/
def again : List UInt8 := if inputPlace files filename = bitsPlace files filename then [] else file

/-- The files when the bits and the table are written. -/
def written : Files :=
  (files.putIf true (bitsPlace files filename) (bitsOf file (again files filename file))).putIf
    true (tablePlace files) (tableOf file)

/-- What a place holds then. -/
def behind (l : Place) : Option (List UInt8) :=
  if l = tablePlace files ∧ files.canWrite (tablePlace files) = true then some (tableOf file)
  else if l = bitsPlace files filename then some (bitsOf file (again files filename file))
  else files.bytes l

variable {files filename file} (writable : files.canWrite (bitsPlace files filename) = true)

theorem written_canWrite (l : Place) :
    (written files filename file).canWrite l = files.canWrite l := by
  simp [written]

theorem written_readable (l : Place) :
    (written files filename file).readable l = files.readable l := by
  simp [written]

theorem written_directory {l : Place} :
    (written files filename file).entry l = some .directory ↔ files.entry l = some .directory := by
  simp [written]

theorem written_resolve (path : Name) :
    (written files filename file).resolve path = files.resolve path := by
  simp [written]

theorem written_entry {l : Place} (notBits : l ≠ bitsPlace files filename)
    (notTable : l ≠ tablePlace files) :
    (written files filename file).entry l = files.entry l := by
  rw [written, Files.putIf_entry_of_ne notTable, Files.putIf_entry_of_ne notBits]

include writable

theorem written_bytes (l : Place) :
    (written files filename file).bytes l = behind files filename file l := by
  have bits : (files.putIf true (bitsPlace files filename)
      (bitsOf file (again files filename file))).bytes l =
        if l = bitsPlace files filename then some (bitsOf file (again files filename file))
        else files.bytes l := by
    split_ifs with same
    · rw [same, Files.putIf_bytes_self, if_pos (by rw [writable]; rfl)]
    · exact Files.putIf_bytes_of_ne same
  unfold written behind
  by_cases same : l = tablePlace files
  · rw [← bits, same, Files.putIf_bytes_self, Files.putIf_canWrite]
    simp only [Bool.true_and, true_and]
  · rw [Files.putIf_bytes_of_ne same, bits]
    exact (if_neg fun h => same h.1).symm

/-- The two halves are put together from what stands in their places. -/
theorem deflate_eq {codes : CodeMap} (run : fileCodes file = some codes)
    (reads : files.openRead (inputPlace files filename) = some file) :
    deflate files filename = combineBinaryFiles (written files filename file)
      (text "encoded_data.bin") (bitsName filename) (Requests.compressedName filename) := by
  have second : ((files.put (bitsPlace files filename) []).openRead
      (inputPlace files filename)).getD [] = again files filename file := by
    unfold again
    split_ifs with same
    · rw [same, Files.put_openRead_self writable]
      split_ifs <;> rfl
    · rw [Files.put_openRead_of_ne same, reads]
      rfl
  have inside : ∀ c ∈ again files filename file, c ∈ file := by
    intro c mem
    unfold again at mem
    split_ifs at mem
    · cases mem
    · exact mem
  have packs := (deflate_parts run).2 _ inside
  have table : tableOf file = Compression.encodeMapToBinaryFile codes := by
    simp only [tableOf, run]
  have opened : files.openWrite (bitsPlace files filename) =
      some (files.put (bitsPlace files filename) []) := if_pos writable
  have stored : encodeMapToBinaryFile
      (files.put (bitsPlace files filename) (bitsOf file (again files filename file))) codes
      (text "encoded_data") = written files filename file := by
    have first : files.put (bitsPlace files filename) (bitsOf file (again files filename file)) =
        files.putIf true (bitsPlace files filename) (bitsOf file (again files filename file)) :=
      (if_pos writable).symm
    rw [first, encodeMap_eq, Files.putIf_resolve, written, table]
    rfl
  rw [inputPlace] at reads
  rw [bitsPlace] at opened
  simp only [deflate, reads, run, opened, bind, Option.bind_some]
  rw [inputPlace, bitsPlace] at second
  simp only [second, packs, Files.put_put]
  rw [← stored]
  rfl

end Writing

section Behind

variable (files : Files) (filename : Name) (file : List UInt8)

/-- The three streams of `combineBinaryFiles` open. -/
def Joins : Prop := files.readable (tablePlace files) = true ∧
  files.readable (bitsPlace files filename) = true ∧
  files.canWrite (compressedPlace files filename) = true

instance : Decidable (Joins files filename) := by
  unfold Joins
  infer_instance

/-- What the place of the compressed file holds in the end. -/
def joined : Option (List UInt8) :=
  if Joins files filename then
    (behind files filename file (tablePlace files)).bind fun data1 =>
      (behind files filename file (bitsPlace files filename)).map fun data2 =>
        Compression.combineBinaryFiles data1 data2
  else files.bytes (compressedPlace files filename)

/-- Everything that a run through all steps does. -/
structure Deflated (after : Files) : Prop where
  others : ∀ l, l ≠ bitsPlace files filename → l ≠ tablePlace files →
    l ≠ compressedPlace files filename → after.entry l = files.entry l
  bytes : ∀ l, l ≠ compressedPlace files filename → after.bytes l = behind files filename file l
  compressed : after.bytes (compressedPlace files filename) = joined files filename file
  readable : ∀ l, after.readable l = files.readable l
  directory : ∀ l, after.entry l = some .directory ↔ files.entry l = some .directory
  resolve : ∀ path, after.resolve path = files.resolve path

variable {files filename file}

theorem behind_compressed : behind files filename file (compressedPlace files filename) =
    files.bytes (compressedPlace files filename) := by
  rw [behind, if_neg fun h => compressed_ne_table files filename h.1,
    if_neg (compressed_ne_bits files filename)]

variable (filename file) in
/-- A table that can be read is there once it is written. -/
theorem behind_table (table : files.entry (tablePlace files) ≠ some .directory)
    (readable : files.readable (tablePlace files) = true) :
    ∃ data1, behind files filename file (tablePlace files) = some data1 := by
  unfold behind
  by_cases opens : files.canWrite (tablePlace files) = true
  · exact ⟨_, if_pos ⟨rfl, opens⟩⟩
  · rw [if_neg fun h => opens h.2]
    split_ifs
    · exact ⟨_, rfl⟩
    · cases entry : files.entry (tablePlace files) with
      | none =>
        simp only [Files.readable, Files.canWrite, entry] at readable opens
        exact absurd readable opens
      | some e =>
        cases e with
        | directory => exact absurd entry table
        | file bytes r w => exact ⟨bytes, by rw [Files.bytes, entry]⟩

variable (writable : files.canWrite (bitsPlace files filename) = true)
include writable

theorem written_deflated (stays : ¬ Joins files filename) :
    Deflated files filename file (written files filename file) := by
  constructor
  · exact fun l notBits notTable _ => written_entry notBits notTable
  · exact fun l _ => written_bytes writable l
  · rw [written_bytes writable, joined, if_neg stays, behind_compressed]
  · exact written_readable
  · exact fun l => written_directory
  · exact written_resolve

theorem joined_deflated (joins : Joins files filename) {data1 data2 : List UInt8}
    (first : behind files filename file (tablePlace files) = some data1)
    (second : behind files filename file (bitsPlace files filename) = some data2) :
    Deflated files filename file ((written files filename file).putIf true
      (compressedPlace files filename) (Compression.combineBinaryFiles data1 data2)) := by
  constructor
  · intro l notBits notTable notCompressed
    rw [Files.putIf_entry_of_ne notCompressed, written_entry notBits notTable]
  · intro l notCompressed
    rw [Files.putIf_bytes_of_ne notCompressed, written_bytes writable]
  · rw [Files.putIf_bytes_self, written_canWrite, joins.2.2, joined, if_pos joins, first, second]
    rfl
  · intro l
    rw [Files.putIf_readable, written_readable]
  · intro l
    rw [Files.putIf_directory, written_directory]
  · intro path
    rw [Files.putIf_resolve, written_resolve]

theorem behind_bits : behind files filename file (bitsPlace files filename) =
    if bitsPlace files filename = tablePlace files then some (tableOf file)
    else some (bitsOf file (again files filename file)) := by
  by_cases same : bitsPlace files filename = tablePlace files
  · rw [if_pos same, behind, if_pos ⟨same, same ▸ writable⟩]
  · rw [if_neg same, behind, if_neg fun h => same h.1, if_pos rfl]

/-- A run that gets to its second reading, unless it ends in the end of a directory. -/
theorem deflate_deflated {codes : CodeMap} (run : fileCodes file = some codes)
    (reads : files.openRead (inputPlace files filename) = some file)
    (table : files.entry (tablePlace files) ≠ some .directory) :
    ∃ after, deflate files filename = some after ∧ Deflated files filename file after := by
  have contents : ∀ l, files.entry l ≠ some .directory →
      (written files filename file).openRead l =
        if files.readable l then behind files filename file l else none := by
    intro l other
    rw [Files.openRead_eq (written_directory.not.mpr other), written_readable,
      written_bytes writable]
  have bits := Files.not_directory writable
  have first : (written files filename file).entry
      ((written files filename file).resolve (text "encoded_data.bin")) ≠ some .directory := by
    rw [written_resolve]
    exact written_directory.not.mpr table
  have second : (written files filename file).entry
      ((written files filename file).resolve (bitsName filename)) ≠ some .directory := by
    rw [written_resolve]
    exact written_directory.not.mpr bits
  have combined := combine_eq (written files filename file) (Requests.compressedName filename)
    first second
  simp only [written_resolve] at combined
  rw [← deflate_eq writable run reads] at combined
  refine ⟨_, combined, ?_⟩
  change Deflated files filename file (match
      (written files filename file).openRead (tablePlace files),
      (written files filename file).openRead (bitsPlace files filename) with
    | some data1, some data2 =>
      (written files filename file).putIf true (compressedPlace files filename)
        (Compression.combineBinaryFiles data1 data2)
    | _, _ => written files filename file)
  rw [contents _ table, contents _ bits]
  by_cases joins : Joins files filename
  · obtain ⟨data1, first⟩ := behind_table filename file table joins.1
    obtain ⟨data2, second⟩ : ∃ data2,
        behind files filename file (bitsPlace files filename) = some data2 := by
      rw [behind_bits writable]
      split_ifs <;> exact ⟨_, rfl⟩
    rw [if_pos joins.1, if_pos joins.2.1, first, second]
    exact joined_deflated writable joins first second
  · have stays : Deflated files filename file (written files filename file) :=
      written_deflated writable joins
    split
    · rename_i data1 data2 first second
      have table : files.readable (tablePlace files) = true := by
        by_contra closed
        rw [if_neg closed] at first
        cases first
      have bits : files.readable (bitsPlace files filename) = true := by
        by_contra closed
        rw [if_neg closed] at second
        cases second
      have closed : (true && (written files filename file).canWrite
          (compressedPlace files filename)) ≠ true := by
        rw [written_canWrite]
        exact fun opens => joins ⟨table, bits, opens⟩
      rw [Files.putIf, if_neg closed]
      exact stays
    · exact stays

theorem deflate_directory {codes : CodeMap} (run : fileCodes file = some codes)
    (reads : files.openRead (inputPlace files filename) = some file)
    (table : files.entry (tablePlace files) = some .directory) :
    deflate files filename = none := by
  have closed : (written files filename file).openAte
      ((written files filename file).resolve (text "encoded_data.bin")) = none := by
    rw [written_resolve]
    exact Files.openAte_directory (written_directory.mpr table)
  rw [deflate_eq writable run reads, combineBinaryFiles, closed]
  rfl

omit writable in
theorem deflate_unread (reads : files.openRead (inputPlace files filename) = none) :
    deflate files filename = some files := by
  rw [inputPlace] at reads
  rw [deflate, reads]

omit writable in
theorem deflate_unwritable {codes : CodeMap} (run : fileCodes file = some codes)
    (reads : files.openRead (inputPlace files filename) = some file)
    (closed : files.canWrite (bitsPlace files filename) ≠ true) :
    deflate files filename = some files := by
  have opened : files.openWrite (files.resolve (bitsName filename)) = none := if_neg closed
  rw [inputPlace] at reads
  simp only [deflate, reads, run, opened, bind, Option.bind_some]
  rfl

end Behind

end TFTP.DeflateFiles
