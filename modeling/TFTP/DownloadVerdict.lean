import TFTP.ClientLoops
import TFTP.DeflateFiles

/-!
# What the client reports about a download

A received file is taken apart, its map is read back, its bits are spelled out and decoded,
and the files in between are removed. They have fixed names, and no step tells the next one
that it has failed: what is read under a name may be left over from an earlier run.
-/

namespace TFTP.DownloadVerdict

open Octets Packet Sockets Client HuffmanCodes Requests ClientFiles DeflateFiles
open FileSystem (Name slash)

def separateBinaryFile (files : Files) (inputPath output1Path output2Path : Name)
    (delimiter : List UInt8) : Option Files := do
  match ← files.openAte (files.resolve inputPath) with
  | none => return files
  | some combinedData =>
    match Compression.separateBinaryFile delimiter combinedData with
    | none => return files
    | some (data1, data2) =>
      match files.openWrite (files.resolve output1Path) with
      | none => return files
      | some opened =>
        let files := opened.put (files.resolve output1Path) data1
        match files.openWrite (files.resolve output2Path) with
        | none => return files
        | some opened => return opened.put (files.resolve output2Path) data2

/-- The loop waits for the end of the file, which a directory does not have. -/
def decodeBinaryFileToMap (files : Files) (filename : Name) : Option CodeMap := do
  match ← files.openAte (files.resolve filename) with
  | none => return ∅
  | some bytes => Compression.decodeBinaryFileToMap bytes

def readBinaryFile (files : Files) (filename : Name) : Files :=
  match files.openRead (files.resolve filename) with
  | none => files
  | some _ =>
    let textFile := files.resolve (filenameWithoutExtension filename ++ text ".txt")
    match files.openWrite textFile with
    | none => files
    | some opened =>
      opened.put textFile
        (Compression.readBinaryFile ((opened.openRead (files.resolve filename)).getD []))

/-- The text is opened before the output is emptied. -/
def inflate (files : Files) (filename : Name) (result : CodeMap) (opFileName : Name) : Files :=
  let hufmanoutput := files.resolve (text "clientDatabase/" ++ opFileName)
  match files.openWrite hufmanoutput with
  | none => files
  | some opened =>
    opened.put hufmanoutput
      (Compression.inflate ((opened.openRead (files.resolve filename)).getD []) result)

def myStringArray : List Name :=
  [text "output_file1.bin", text "output_file2.bin", text "output_file2.txt",
    text "encoded_data.bin"]

/-- What `handleRRQRequest` does with a file it has received. -/
def decompressFiles (files : Files) (filename prevFilename : Name) : Option Files := do
  let files ← separateBinaryFile files filename (text "output_file1.bin")
    (text "output_file2.bin") Compression.delimiter
  let result ← decodeBinaryFileToMap files (text "output_file1.bin")
  let files := readBinaryFile files (text "output_file2.bin")
  let files := inflate files (text "output_file2.txt") result prevFilename
  myStringArray.foldlM (fun files name => files.remove (files.resolve name)) files

/-- `returned` is `none` as long as packets are waited for, and behind a packet for which
nothing is promised. -/
structure Call where
  returned : Option Bool
  files : Files
  effects : List Effect

/-- `none` where the steps behind the last block have no defined result. `sendFails` is about
the request. -/
def handleRRQRequest (files : Files) (clientAddress serverAddress : Addr) (prevFilename : Name)
    (sendFails : Bool) (packets : List (Recv × LocalIO)) : Option Call :=
  if prevFilename = [] ∨ sendFails = true then some ⟨some false, files, []⟩
  else
    let filename := compressedName prevFilename
    let request := Effect.send serverAddress (requestDatagram (.read filename))
    match files.openWrite (files.resolve filename) with
    | none =>
      some ⟨some false, files, [request,
        sendError clientAddress errorDiskFull "Disk full or allocation exceeded."]⟩
    | some opened =>
      let (loop, effects) := (readReactor clientAddress).feed (.start serverAddress) packets
      let files := opened.put (files.resolve filename) loop.content
      match loop.status with
      | .receiving => some ⟨none, files, request :: effects⟩
      | .completed =>
        (decompressFiles files filename prevFilename).map fun files =>
          ⟨some true, files, request :: effects⟩
      | .failed => some ⟨some false, files, request :: effects⟩
      | .exhausted => some ⟨some false, files, request :: effects⟩
      | .undefined => some ⟨none, files, request :: effects⟩

section Steps

variable (files : Files) {filename output1Path output2Path : Name}

theorem separate_eq (delimiter : List UInt8)
    (file : files.entry (files.resolve filename) ≠ some .directory) :
    separateBinaryFile files filename output1Path output2Path delimiter =
      some (match (files.openRead (files.resolve filename)).bind
          (Compression.separateBinaryFile delimiter) with
        | none => files
        | some (data1, data2) =>
          (files.putIf true (files.resolve output1Path) data1).putIf
            (files.canWrite (files.resolve output1Path)) (files.resolve output2Path) data2) := by
  simp only [separateBinaryFile, Files.openAte_eq file, bind, Option.bind_some]
  cases files.openRead (files.resolve filename) with
  | none => rfl
  | some combinedData =>
    cases split : Compression.separateBinaryFile delimiter combinedData with
    | none => simp only [Option.bind_some, split, pure]
    | some sections =>
      obtain ⟨data1, data2⟩ := sections
      simp only [Option.bind_some, split, pure]
      cases opens : files.canWrite (files.resolve output1Path) with
      | false =>
        simp only [Files.openWrite, Files.putIf, opens, Bool.and_false, Bool.false_and,
          Bool.false_eq_true, if_false]
      | true =>
        have first : files.putIf true (files.resolve output1Path) data1 =
            files.put (files.resolve output1Path) data1 := if_pos opens
        have opened : files.openWrite (files.resolve output1Path) =
            some (files.put (files.resolve output1Path) []) := if_pos opens
        simp only [opened, Files.put_put, Files.put_resolve, first, ← Files.openWrite_put]
        cases (files.put (files.resolve output1Path) data1).openWrite
          (files.resolve output2Path) <;> rfl

theorem readBinary_eq (other : files.resolve filename ≠
      files.resolve (filenameWithoutExtension filename ++ text ".txt")) :
    readBinaryFile files filename = files.putIf (files.openRead (files.resolve filename)).isSome
      (files.resolve (filenameWithoutExtension filename ++ text ".txt"))
      (Compression.readBinaryFile ((files.openRead (files.resolve filename)).getD [])) := by
  unfold readBinaryFile
  cases reads : files.openRead (files.resolve filename) with
  | none => rfl
  | some bytes =>
    simp only [Files.openWrite, Files.putIf, Option.isSome_some, Bool.true_and]
    split_ifs
    · simp only [Files.put_put, Files.put_openRead_of_ne other, reads]
    · rfl

theorem inflate_eq (result : CodeMap) (opFileName : Name) :
    inflate files filename result opFileName =
      files.putIf true (files.resolve (text "clientDatabase/" ++ opFileName))
        (Compression.inflate (((files.put (files.resolve (text "clientDatabase/" ++ opFileName))
          []).openRead (files.resolve filename)).getD []) result) := by
  simp only [inflate, Files.openWrite, Files.putIf, Bool.true_and]
  split_ifs
  · simp only [Files.put_put]
  · rfl

theorem remove_eq (l : Place) : files.remove l =
    if files.entry l ≠ none → files.removable l = true then
      some { files with entry := Function.update files.entry l none }
    else none := by
  unfold Files.remove
  cases entry : files.entry l with
  | none =>
    have same : Function.update files.entry l none = files.entry := by
      rw [← entry, Function.update_eq_self]
    simp [same]
  | some e => simp

/-- The files without those of some names. -/
def without (names : List Name) : Files :=
  { files with
    entry := fun l => if ∃ name ∈ names, files.resolve name = l then none else files.entry l }

/-- All go, or one of those that are there does not. -/
theorem removeAll_eq (names : List Name) :
    names.foldlM (fun files name => files.remove (files.resolve name)) files =
      if ∀ name ∈ names, files.entry (files.resolve name) ≠ none →
        files.removable (files.resolve name) = true then some (without files names)
      else none := by
  induction names generalizing files with
  | nil => simp [without]
  | cons name names ih =>
    rw [List.foldlM_cons, remove_eq]
    split_ifs with first all
    · refine (ih _).trans ((if_pos ?_).trans (congrArg some ?_))
      · intro other mem there
        refine all other (List.mem_cons_of_mem _ mem) fun none => there ?_
        by_cases same : files.resolve other = files.resolve name
        · exact (congrArg _ same).trans (Function.update_self ..)
        · exact (Function.update_of_ne same ..).trans none
      · simp only [without, List.exists_mem_cons_iff]
        congr 1
        funext l
        by_cases same : files.resolve name = l
        · rw [if_pos (Or.inl same), ← same, Function.update_self, ite_self]
        · rw [Function.update_of_ne (Ne.symm same)]
          simp only [same, false_or]
          rfl
    · refine (ih _).trans (if_neg fun rest => all ?_)
      refine List.forall_mem_cons.mpr ⟨first, fun other mem there => ?_⟩
      by_cases same : files.resolve other = files.resolve name
      · rw [same] at there ⊢
        exact first there
      · exact rest other mem fun none => there ((Function.update_of_ne same ..).symm.trans none)
    · rename_i all
      exact absurd (all name List.mem_cons_self) first
    · rfl

/-- What is one of the removed files is gone in the end. -/
theorem removed_gone {names : List Name} {before after : Files} {l : Place}
    (removed : names.foldlM (fun files name => files.remove (files.resolve name)) before =
      some after) (mem : ∃ name ∈ names, before.resolve name = l) : after.bytes l = none := by
  rw [removeAll_eq] at removed
  split_ifs at removed
  obtain rfl := Option.some.inj removed
  simp only [Files.bytes, without, if_pos mem]

theorem without_bytes {names : List Name} {l : Place}
    (stays : ¬ ∃ name ∈ names, files.resolve name = l) :
    (without files names).bytes l = files.bytes l := by
  simp only [Files.bytes, without, if_neg stays]

end Steps

section Stages

variable (files : Files) (filename : Name)

def mapPlace : Place := files.resolve (text "output_file1.bin")

def sectionPlace : Place := files.resolve (text "output_file2.bin")

def textPlace : Place := files.resolve (text "output_file2.txt")

def decodedPlace : Place := files.resolve (text "clientDatabase/" ++ filename)

/-- The map section gets to its place. -/
def storesMap : Bool :=
  files.readable (compressedPlace files filename) && files.canWrite (mapPlace files)

def storesBits : Bool := storesMap files filename && files.canWrite (sectionPlace files)

variable (content data1 data2 : List UInt8)

/-- The map that is read back. No file is an empty map, and a directory is never read to
its end. -/
def mapRead : Option CodeMap :=
  if files.entry (mapPlace files) = some .directory then none
  else
    match files.readsAs (mapPlace files)
      (if storesMap files filename then some data1 else files.bytes (mapPlace files)) with
    | none => some ∅
    | some bytes => Compression.decodeBinaryFileToMap bytes

/-- The bits that are spelled out. -/
def bitsRead : Option (List UInt8) :=
  files.readsAs (sectionPlace files)
    (if storesBits files filename then some data2 else files.bytes (sectionPlace files))

def storesText : Bool := (bitsRead files filename data2).isSome && files.canWrite (textPlace files)

/-- The text that is decoded. -/
def textRead : List UInt8 :=
  (files.readsAs (textPlace files)
    (if storesText files filename data2 then
      some (Compression.readBinaryFile ((bitsRead files filename data2).getD []))
    else files.bytes (textPlace files))).getD []

/-- The files in between are gone in the end, or the call ends in an exception. -/
structure Clears : Prop where
  map : files.entry (mapPlace files) ≠ none ∨ storesMap files filename = true →
    files.removable (mapPlace files) = true
  bits : files.entry (sectionPlace files) ≠ none ∨ storesBits files filename = true →
    files.removable (sectionPlace files) = true
  text : files.entry (textPlace files) ≠ none ∨ storesText files filename data2 = true →
    files.removable (textPlace files) = true
  table : files.entry (tablePlace files) ≠ none → files.removable (tablePlace files) = true

def received : Files := files.putIf true (compressedPlace files filename) content

def separated : Files :=
  ((received files filename content).putIf (files.readable (compressedPlace files filename))
    (mapPlace files) data1).putIf (storesMap files filename) (sectionPlace files) data2

def spelled : Files :=
  (separated files filename content data1 data2).putIf (bitsRead files filename data2).isSome
    (textPlace files) (Compression.readBinaryFile ((bitsRead files filename data2).getD []))

def decoded (result : CodeMap) : Files :=
  inflate (spelled files filename content data1 data2) (text "output_file2.txt") result filename

variable {files filename content data1 data2}

theorem separated_resolve (path : Name) :
    (separated files filename content data1 data2).resolve path = files.resolve path := by
  simp [separated, received]

theorem spelled_resolve (path : Name) :
    (spelled files filename content data1 data2).resolve path = files.resolve path := by
  simp [spelled, separated_resolve]

theorem decoded_resolve (result : CodeMap) (path : Name) :
    (decoded files filename content data1 data2 result).resolve path = files.resolve path := by
  rw [decoded, inflate_eq, Files.putIf_resolve, spelled_resolve]

theorem compressed_ne_temporary {name : Name} (mem : name ∈ myStringArray) :
    compressedPlace files filename ≠ files.resolve name := by
  have ends : ∀ name ∈ myStringArray, slash ∉ name ∧ 3 ≤ name.length ∧
      ¬ text "compress.bin" <:+ name := by decide
  obtain ⟨plain, long, other⟩ := ends name mem
  exact resolve_ne_of_suffix files (filenameWithoutExtension filename) (by decide) plain
    (by decide) long other

theorem temporary_ne {name other : Name} (mem : name ∈ myStringArray)
    (mem' : other ∈ myStringArray) (ne : name ≠ other) :
    files.resolve name ≠ files.resolve other := by
  have plain : ∀ name ∈ myStringArray, slash ∉ name ∧ 3 ≤ name.length := by decide
  rw [resolve_plain files (plain _ mem).1 (plain _ mem).2,
    resolve_plain files (plain _ mem').1 (plain _ mem').2]
  exact fun same => ne (List.cons.inj same).1

theorem map_ne_section : mapPlace files ≠ sectionPlace files :=
  temporary_ne (by decide) (by decide) (by decide)

theorem map_ne_text : mapPlace files ≠ textPlace files :=
  temporary_ne (by decide) (by decide) (by decide)

theorem section_ne_text : sectionPlace files ≠ textPlace files :=
  temporary_ne (by decide) (by decide) (by decide)

theorem compressed_ne_map : compressedPlace files filename ≠ mapPlace files :=
  compressed_ne_temporary (by decide)

theorem compressed_ne_section : compressedPlace files filename ≠ sectionPlace files :=
  compressed_ne_temporary (by decide)

theorem compressed_ne_text : compressedPlace files filename ≠ textPlace files :=
  compressed_ne_temporary (by decide)

/-- The map section, or what stands under its name. -/
theorem decode_separated :
    decodeBinaryFileToMap (separated files filename content data1 data2)
      (text "output_file1.bin") = mapRead files filename data1 := by
  have place : (separated files filename content data1 data2).resolve (text "output_file1.bin") =
      mapPlace files := separated_resolve _
  have directory : (separated files filename content data1 data2).entry (mapPlace files) =
      some .directory ↔ files.entry (mapPlace files) = some .directory := by
    simp [separated, received]
  have bytes : (separated files filename content data1 data2).bytes (mapPlace files) =
      if storesMap files filename then some data1 else files.bytes (mapPlace files) := by
    rw [separated, Files.putIf_bytes_of_ne map_ne_section, Files.putIf_bytes_self, received,
      Files.putIf_canWrite, Files.putIf_bytes_of_ne compressed_ne_map.symm]
    rfl
  have reads : (separated files filename content data1 data2).openRead (mapPlace files) =
      files.readsAs (mapPlace files)
        (if storesMap files filename then some data1 else files.bytes (mapPlace files)) := by
    rw [Files.openRead_readsAs, bytes, separated, received]
    simp only [Files.putIf_readsAs]
  rw [decodeBinaryFileToMap, place, mapRead]
  by_cases ends : files.entry (mapPlace files) = some .directory
  · rw [Files.openAte_directory (directory.mpr ends), if_pos ends]
    rfl
  · rw [Files.openAte_eq (directory.not.mpr ends), if_neg ends, reads]
    simp only [bind, Option.bind_some]
    cases files.readsAs (mapPlace files)
      (if storesMap files filename then some data1 else files.bytes (mapPlace files)) <;> rfl

/-- The bit section, or what stands under its name. -/
theorem spell_separated :
    readBinaryFile (separated files filename content data1 data2) (text "output_file2.bin") =
      spelled files filename content data1 data2 := by
  have place : (separated files filename content data1 data2).resolve (text "output_file2.bin") =
      sectionPlace files := separated_resolve _
  have textName : filenameWithoutExtension (text "output_file2.bin") ++ text ".txt" =
      text "output_file2.txt" := by decide
  have target : (separated files filename content data1 data2).resolve (text "output_file2.txt") =
      textPlace files := separated_resolve _
  have bytes : (separated files filename content data1 data2).bytes (sectionPlace files) =
      if storesBits files filename then some data2 else files.bytes (sectionPlace files) := by
    rw [separated, Files.putIf_bytes_self, Files.putIf_canWrite, received, Files.putIf_canWrite,
      Files.putIf_bytes_of_ne map_ne_section.symm,
      Files.putIf_bytes_of_ne compressed_ne_section.symm]
    rfl
  have reads : (separated files filename content data1 data2).openRead (sectionPlace files) =
      bitsRead files filename data2 := by
    rw [Files.openRead_readsAs, bytes, separated, received, bitsRead]
    simp only [Files.putIf_readsAs]
  rw [readBinary_eq _ (by rw [textName, place, target]; exact section_ne_text), textName, place,
    target, reads, spelled]

/-- The spelled bits, or what stands under the name of the text. -/
theorem text_spelled (apart : textPlace files ≠ decodedPlace files filename) :
    (((spelled files filename content data1 data2).put (decodedPlace files filename) []).openRead
      (textPlace files)).getD [] = textRead files filename data2 := by
  have untouched : (separated files filename content data1 data2).bytes (textPlace files) =
      files.bytes (textPlace files) := by
    rw [separated, Files.putIf_bytes_of_ne section_ne_text.symm,
      Files.putIf_bytes_of_ne map_ne_text.symm, received,
      Files.putIf_bytes_of_ne compressed_ne_text.symm]
  have writes : (separated files filename content data1 data2).canWrite (textPlace files) =
      files.canWrite (textPlace files) := by
    simp [separated, received]
  rw [Files.put_openRead_of_ne apart, Files.openRead_readsAs, spelled, Files.putIf_bytes_self,
    untouched, writes, textRead]
  simp only [Files.putIf_readsAs, separated, received]
  rfl

theorem spelled_map : (spelled files filename content data1 data2).entry (mapPlace files) ≠ none ↔
    files.entry (mapPlace files) ≠ none ∨ storesMap files filename = true := by
  rw [spelled, Files.putIf_entry_of_ne map_ne_text, separated,
    Files.putIf_entry_of_ne map_ne_section, Files.putIf_entry_self, received,
    Files.putIf_entry_of_ne compressed_ne_map.symm, Files.putIf_canWrite, storesMap]

theorem spelled_bits :
    (spelled files filename content data1 data2).entry (sectionPlace files) ≠ none ↔
      files.entry (sectionPlace files) ≠ none ∨ storesBits files filename = true := by
  rw [spelled, Files.putIf_entry_of_ne section_ne_text, separated, Files.putIf_entry_self,
    Files.putIf_entry_of_ne map_ne_section.symm, received,
    Files.putIf_entry_of_ne compressed_ne_section.symm, Files.putIf_canWrite,
    Files.putIf_canWrite, storesBits]

theorem spelled_text : (spelled files filename content data1 data2).entry (textPlace files) ≠ none ↔
    files.entry (textPlace files) ≠ none ∨ storesText files filename data2 = true := by
  have writes : (separated files filename content data1 data2).canWrite (textPlace files) =
      files.canWrite (textPlace files) := by
    simp [separated, received]
  rw [spelled, Files.putIf_entry_self, separated,
    Files.putIf_entry_of_ne section_ne_text.symm, Files.putIf_entry_of_ne map_ne_text.symm,
    received, Files.putIf_entry_of_ne compressed_ne_text.symm, ← received, ← separated, writes,
    storesText]

theorem spelled_table : (spelled files filename content data1 data2).entry (tablePlace files) =
    files.entry (tablePlace files) := by
  have notText : tablePlace files ≠ textPlace files :=
    temporary_ne (by decide) (by decide) (by decide)
  have notSection : tablePlace files ≠ sectionPlace files :=
    temporary_ne (by decide) (by decide) (by decide)
  have notMap : tablePlace files ≠ mapPlace files :=
    temporary_ne (by decide) (by decide) (by decide)
  rw [spelled, Files.putIf_entry_of_ne notText, separated, Files.putIf_entry_of_ne notSection,
    Files.putIf_entry_of_ne notMap, received,
    Files.putIf_entry_of_ne (compressed_ne_table files filename).symm]

section Received

variable (opens : files.canWrite (compressedPlace files filename) = true)
  (split : Compression.separateBinaryFile Compression.delimiter content = some (data1, data2))
include opens split

/-- The received file is taken apart if it can be read back. -/
theorem separate_received :
    separateBinaryFile (received files filename content) (compressedName filename)
        (text "output_file1.bin") (text "output_file2.bin") Compression.delimiter =
      some (separated files filename content data1 data2) := by
  have place : (received files filename content).resolve (compressedName filename) =
      compressedPlace files filename := Files.putIf_resolve _
  have file := Files.not_directory opens
  have reads : (received files filename content).openRead (compressedPlace files filename) =
      if files.readable (compressedPlace files filename) then some content else none := by
    rw [Files.openRead_readsAs, received, Files.putIf_readsAs, Files.putIf_bytes_self, opens,
      Files.readsAs, if_neg file]
    rfl
  rw [separate_eq _ _ (by rw [place]; exact Files.putIf_directory.not.mpr file), place, reads]
  have first : (received files filename content).resolve (text "output_file1.bin") =
      mapPlace files := Files.putIf_resolve _
  have second : (received files filename content).resolve (text "output_file2.bin") =
      sectionPlace files := Files.putIf_resolve _
  have writes : (received files filename content).canWrite (mapPlace files) =
      files.canWrite (mapPlace files) := Files.putIf_canWrite
  cases readable : files.readable (compressedPlace files filename) with
  | true =>
    simp only [if_true, Option.bind_some, split, first, second, writes, separated, storesMap,
      readable, Bool.true_and]
  | false =>
    simp only [Bool.false_eq_true, if_false, Option.bind_none, separated, storesMap, readable,
      Bool.false_and]
    rfl

/-- All steps behind the last block. -/
theorem decompress_eq :
    decompressFiles (received files filename content) (compressedName filename) filename =
      (mapRead files filename data1).bind fun result => myStringArray.foldlM
        (fun files name => files.remove (files.resolve name))
        (decoded files filename content data1 data2 result) := by
  simp only [decompressFiles, separate_received opens split, bind, Option.bind_some,
    decode_separated, spell_separated]
  rfl

end Received

section Apart

variable (apart : ∀ name ∈ myStringArray, files.resolve name ≠ decodedPlace files filename)
include apart

theorem decoded_apart (result : CodeMap) : ¬ ∃ name ∈ myStringArray,
    (decoded files filename content data1 data2 result).resolve name =
      decodedPlace files filename := by
  rintro ⟨name, mem, same⟩
  rw [decoded_resolve] at same
  exact apart name mem same

theorem decoded_eq (result : CodeMap) : decoded files filename content data1 data2 result =
    (spelled files filename content data1 data2).putIf true (decodedPlace files filename)
      (Compression.inflate (textRead files filename data2) result) := by
  have place : (spelled files filename content data1 data2).resolve
      (text "clientDatabase/" ++ filename) = decodedPlace files filename := spelled_resolve _
  have source : (spelled files filename content data1 data2).resolve (text "output_file2.txt") =
      textPlace files := spelled_resolve _
  rw [decoded, inflate_eq, place, source, text_spelled (apart _ (by decide))]

theorem decoded_bytes (opens : files.canWrite (compressedPlace files filename) = true)
    (result : CodeMap) :
    (decoded files filename content data1 data2 result).bytes (decodedPlace files filename) =
      if files.canWrite (decodedPlace files filename) then
        some (Compression.inflate (textRead files filename data2) result)
      else files.bytes (decodedPlace files filename) := by
  have writes : (spelled files filename content data1 data2).canWrite
      (decodedPlace files filename) = files.canWrite (decodedPlace files filename) := by
    simp [spelled, separated, received]
  rw [decoded_eq apart, Files.putIf_bytes_self, writes]
  split_ifs with first second second
  · rfl
  · exact absurd first second
  · exact absurd second first
  · have other : decodedPlace files filename ≠ compressedPlace files filename :=
      fun same => second (same ▸ opens)
    have notText : textPlace files ≠ decodedPlace files filename := apart _ (by decide)
    have notSection : sectionPlace files ≠ decodedPlace files filename := apart _ (by decide)
    have notMap : mapPlace files ≠ decodedPlace files filename := apart _ (by decide)
    rw [spelled, Files.putIf_bytes_of_ne notText.symm, separated,
      Files.putIf_bytes_of_ne notSection.symm, Files.putIf_bytes_of_ne notMap.symm, received,
      Files.putIf_bytes_of_ne other]

theorem clears_iff (result : CodeMap) :
    (∀ name ∈ myStringArray,
      (decoded files filename content data1 data2 result).entry
        ((decoded files filename content data1 data2 result).resolve name) ≠ none →
      (decoded files filename content data1 data2 result).removable
        ((decoded files filename content data1 data2 result).resolve name) = true) ↔
      Clears files filename data2 := by
  have removable : ∀ l, (decoded files filename content data1 data2 result).removable l =
      files.removable l := by
    intro l
    rw [decoded_eq apart]
    simp [spelled, separated, received]
  have outside : ∀ name ∈ myStringArray,
      (decoded files filename content data1 data2 result).entry (files.resolve name) =
        (spelled files filename content data1 data2).entry (files.resolve name) := by
    intro name mem
    rw [decoded_eq apart, Files.putIf_entry_of_ne (apart name mem)]
  simp only [decoded_resolve, removable]
  constructor
  · intro goes
    refine ⟨fun there => ?_, fun there => ?_, fun there => ?_, fun there => ?_⟩
    · refine goes (text "output_file1.bin") (by decide) ?_
      rw [outside _ (by decide)]
      exact spelled_map.mpr there
    · refine goes (text "output_file2.bin") (by decide) ?_
      rw [outside _ (by decide)]
      exact spelled_bits.mpr there
    · refine goes (text "output_file2.txt") (by decide) ?_
      rw [outside _ (by decide)]
      exact spelled_text.mpr there
    · refine goes (text "encoded_data.bin") (by decide) ?_
      rw [outside _ (by decide)]
      exact spelled_table ▸ there
  · intro clears name mem there
    rw [outside _ mem] at there
    simp only [myStringArray, List.mem_cons, List.not_mem_nil, or_false] at mem
    rcases mem with rfl | rfl | rfl | rfl
    · exact clears.map (spelled_map.mp there)
    · exact clears.bits (spelled_bits.mp there)
    · exact clears.text (spelled_text.mp there)
    · exact clears.table (spelled_table ▸ there)

end Apart

variable (files filename content) in
/-- With no delimiter in the received file the call fails and the old file stays; with one,
the new file is what the two sections of the received file say. -/
def Decoded (call : Option Call) : Prop := ∃ c, call = some c ∧
  match Compression.separateBinaryFile Compression.delimiter content with
  | none => c.returned = some false ∧ ∀ old,
      files.bytes (decodedPlace files filename) = some old →
        c.files.bytes (decodedPlace files filename) = some old
  | some _ => ∃ file, Compression.decompress content = some file ∧
      c.files.bytes (decodedPlace files filename) = some file

variable (files filename) in
/-- Every step can store what it comes to, and the next one can read it. -/
structure HandsOn : Prop where
  map : storesMap files filename = true ∧ files.readable (mapPlace files) = true
  bits : files.canWrite (sectionPlace files) = true ∧ files.readable (sectionPlace files) = true
  text : files.canWrite (textPlace files) = true ∧ files.readable (textPlace files) = true

variable (files filename data1 data2) in
/-- With what stood under the names of the files in between where a step is left out, the
decoding comes to this file. -/
def SaysSame (file : List UInt8) : Prop := ∃ result, mapRead files filename data1 = some result ∧
  (files.canWrite (decodedPlace files filename) = true →
    Compression.inflate (textRead files filename data2) result = file)

variable (files filename content) in
/-- The condition on the files before the call, and on the content: there is something to
decode, each step hands on what it has, or what it leaves over says the same, and the result
is kept. -/
def DecodesOwn : Prop := ∃ data1 data2 file,
  Compression.separateBinaryFile Compression.delimiter content = some (data1, data2) ∧
    Compression.decompress content = some file ∧
    (∀ name ∈ myStringArray, files.resolve name ≠ decodedPlace files filename) ∧
    Clears files filename data2 ∧
    (HandsOn files filename ∨ SaysSame files filename data1 data2 file) ∧
    (files.canWrite (decodedPlace files filename) = true ∨
      files.bytes (decodedPlace files filename) = some file)

theorem readsAs_own {l : Place} (writable : files.canWrite l = true)
    (readable : files.readable l = true) (bytes : List UInt8) :
    files.readsAs l (some bytes) = some bytes := by
  rw [Files.readsAs, if_neg (Files.not_directory writable), if_pos readable]

section HandsOn

variable (hands : HandsOn files filename)
include hands

theorem HandsOn.map_read (data1 : List UInt8) :
    mapRead files filename data1 = Compression.decodeBinaryFileToMap data1 := by
  have writable : files.canWrite (mapPlace files) = true :=
    ((Bool.and_eq_true _ _).mp hands.map.1).2
  rw [mapRead, if_neg (Files.not_directory writable), if_pos hands.map.1,
    readsAs_own writable hands.map.2]

theorem HandsOn.text_read (data2 : List UInt8) :
    textRead files filename data2 = Compression.readBinaryFile data2 := by
  have second : storesBits files filename = true := by
    rw [storesBits, hands.map.1, hands.bits.1]
    rfl
  have bits : bitsRead files filename data2 = some data2 := by
    rw [bitsRead, if_pos second, readsAs_own hands.bits.1 hands.bits.2]
  have third : storesText files filename data2 = true := by
    rw [storesText, bits, hands.text.1]
    rfl
  rw [textRead, if_pos third, bits, readsAs_own hands.text.1 hands.text.2]
  rfl

theorem HandsOn.saysSame {file : List UInt8}
    (split : Compression.separateBinaryFile Compression.delimiter content = some (data1, data2))
    (form : Compression.decompress content = some file) :
    SaysSame files filename data1 data2 file := by
  obtain ⟨_, split', decodes⟩ := Option.bind_eq_some_iff.mp form
  obtain rfl := Option.some.inj (split.symm.trans split')
  obtain ⟨result, map, last⟩ := Option.bind_eq_some_iff.mp decodes
  refine ⟨result, (hands.map_read data1).trans map, fun _ => ?_⟩
  rw [hands.text_read]
  exact Option.some.inj last

end HandsOn

variable (files filename) in
/-- No step is in the way of the next one, whatever is left over. -/
structure Free : Prop where
  readsBack : files.readable (compressedPlace files filename) = true
  writable : ∀ name ∈ myStringArray, files.canWrite (files.resolve name) = true
  readable : ∀ name ∈ myStringArray, files.readable (files.resolve name) = true
  removable : ∀ name ∈ myStringArray, files.removable (files.resolve name) = true
  apart : ∀ name ∈ myStringArray, files.resolve name ≠ decodedPlace files filename
  output : files.canWrite (decodedPlace files filename) = true

/-- In free files everything that can be decoded is decoded. -/
theorem own_of_free (free : Free files filename) {file : List UInt8}
    (form : Compression.decompress content = some file) : DecodesOwn files filename content := by
  obtain ⟨⟨data1, data2⟩, split, _⟩ := Option.bind_eq_some_iff.mp form
  have first : storesMap files filename = true := by
    rw [storesMap, free.readsBack, mapPlace, free.writable _ (by decide)]
    rfl
  have hands : HandsOn files filename :=
    ⟨⟨first, free.readable _ (by decide)⟩,
      ⟨free.writable _ (by decide), free.readable _ (by decide)⟩,
      ⟨free.writable _ (by decide), free.readable _ (by decide)⟩⟩
  exact ⟨data1, data2, file, split, form, free.apart, ⟨fun _ => free.removable _ (by decide),
    fun _ => free.removable _ (by decide), fun _ => free.removable _ (by decide),
    fun _ => free.removable _ (by decide)⟩, Or.inl hands, Or.inl free.output⟩

variable (files filename content) in
/-- A call whose transfer is completed with a content. -/
structure Receives (clientAddress serverAddress : Addr) (packets : List (Recv × LocalIO)) :
    Prop where
  named : filename ≠ []
  opens : files.canWrite (compressedPlace files filename) = true
  completed : ((readReactor clientAddress).feed (.start serverAddress) packets).1.status =
    .completed
  content : ((readReactor clientAddress).feed (.start serverAddress) packets).1.content = content

section Verdict

variable {clientAddress serverAddress : Addr} {packets : List (Recv × LocalIO)}
  (receives : Receives files filename content clientAddress serverAddress packets)
include receives

/-- Whatever the steps come to, a completed transfer is reported as a success. -/
theorem handle_received :
    handleRRQRequest files clientAddress serverAddress filename false packets =
      (decompressFiles (received files filename content) (compressedName filename) filename).map
        fun after => ⟨some true, after,
          .send serverAddress (requestDatagram (.read (compressedName filename))) ::
            ((readReactor clientAddress).feed (.start serverAddress) packets).2⟩ := by
  have opened : files.openWrite (compressedPlace files filename) =
      some (files.put (compressedPlace files filename) []) := if_pos receives.opens
  have stored : received files filename content =
      files.put (compressedPlace files filename) content := if_pos receives.opens
  have started : ¬ (filename = [] ∨ false = true) := by simp [receives.named]
  have place : files.resolve (compressedName filename) = compressedPlace files filename := rfl
  simp only [handleRRQRequest, if_neg started, place, opened, receives.completed,
    receives.content, Files.put_put, stored]

theorem undelimited_reports
    (none : Compression.separateBinaryFile Compression.delimiter content = none) :
    ¬ Decoded files filename content
      (handleRRQRequest files clientAddress serverAddress filename false packets) := by
  rintro ⟨call, called, verdict⟩
  rw [none] at verdict
  rw [handle_received receives] at called
  obtain ⟨after, _, rfl⟩ := Option.map_eq_some_iff.mp called
  cases verdict.1

theorem decoded_of_own (own : DecodesOwn files filename content) :
    Decoded files filename content
      (handleRRQRequest files clientAddress serverAddress filename false packets) := by
  obtain ⟨data1, data2, file, split, form, apart, clears, same, output⟩ := own
  obtain ⟨result, map, decodes⟩ := same.elim (fun hands => hands.saysSame split form) id
  have removed := removeAll_eq (decoded files filename content data1 data2 result) myStringArray
  rw [if_pos ((clears_iff apart result).mpr clears)] at removed
  have ran := decompress_eq receives.opens split
  rw [map, Option.bind_some, removed] at ran
  rw [handle_received receives, ran]
  refine ⟨_, rfl, ?_⟩
  rw [split]
  refine ⟨file, form, ?_⟩
  simp only [without_bytes _ (decoded_apart apart result), decoded_bytes apart receives.opens]
  split_ifs with writable
  · rw [decodes writable]
  · exact output.resolve_left writable

theorem own_of_decoded (verdict : Decoded files filename content
      (handleRRQRequest files clientAddress serverAddress filename false packets)) :
    DecodesOwn files filename content := by
  cases split : Compression.separateBinaryFile Compression.delimiter content with
  | none => exact absurd verdict (undelimited_reports receives split)
  | some sections =>
    obtain ⟨data1, data2⟩ := sections
    obtain ⟨call, called, own⟩ := verdict
    rw [split] at own
    obtain ⟨file, form, kept⟩ := own
    rw [handle_received receives, decompress_eq receives.opens split] at called
    obtain ⟨after, ran, rfl⟩ := Option.map_eq_some_iff.mp called
    obtain ⟨result, map, removed⟩ := Option.bind_eq_some_iff.mp ran
    have apart : ∀ name ∈ myStringArray, files.resolve name ≠ decodedPlace files filename := by
      intro name mem same
      rw [← decoded_resolve result] at same
      have gone := removed_gone removed ⟨name, mem, same⟩
      rw [gone] at kept
      cases kept
    rw [removeAll_eq] at removed
    split_ifs at removed with clears
    obtain rfl := Option.some.inj removed
    simp only [without_bytes _ (decoded_apart apart result),
      decoded_bytes apart receives.opens] at kept
    refine ⟨data1, data2, file, split, form, apart, (clears_iff apart result).mp clears,
      Or.inr ⟨result, map, fun writable => ?_⟩, ?_⟩
    · rw [if_pos writable] at kept
      exact Option.some.inj kept
    · by_cases writable : files.canWrite (decodedPlace files filename) = true
      · exact Or.inl writable
      · rw [if_neg writable] at kept
        exact Or.inr kept

end Verdict

end Stages

/-- A completed download ends in the file that was received, or in a failure where nothing can
be decoded, if and only if there is something to decode and every step finds what the one
before it has, or would have, written. -/
theorem decoded_iff (files : Files) (filename : Name) (content : List UInt8)
    {clientAddress serverAddress : Addr} {packets : List (Recv × LocalIO)}
    (receives : Receives files filename content clientAddress serverAddress packets) :
    Decoded files filename content
      (handleRRQRequest files clientAddress serverAddress filename false packets) ↔
      DecodesOwn files filename content :=
  ⟨own_of_decoded receives, decoded_of_own receives⟩

/-- A directory with no files. -/
def emptyDirectory : Files where
  workingDirectory := []
  entry := fun _ => none
  creatable := fun _ => true
  removable := fun _ => true

/-- A directory in which an earlier download has left its map and its text. -/
def leftoverDirectory : Files where
  workingDirectory := []
  entry := fun l =>
    if l = [text "output_file1.bin"] then some (.file [65, 1, 0, 0, 0, 0, 0, 0, 0, 48] true true)
    else if l = [text "output_file2.txt"] then some (.file [48, 48] true true)
    else none
  creatable := fun _ => true
  removable := fun _ => true

/-- The compressed form of `babc`. -/
def fourBytes : List UInt8 :=
  [97, 2, 0, 0, 0, 0, 0, 0, 0, 49, 49, 98, 1, 0, 0, 0, 0, 0, 0, 0, 48,
    99, 2, 0, 0, 0, 0, 0, 0, 0, 49, 48, 127, 254, 22]

theorem decoded_iff_leftovers :
    Decoded leftoverDirectory (text "a.txt") fourBytes
      (handleRRQRequest leftoverDirectory ⟨0, 0⟩ ⟨0x7F000001, 69⟩ (text "a.txt") false
        [(.datagram ⟨0x7F000001, 9801⟩ (header 3 1 ++ fourBytes), .ok)]) ↔
      DecodesOwn leftoverDirectory (text "a.txt") fourBytes :=
  decoded_iff _ _ _ ⟨by decide, by decide, by decide, by decide⟩

/-- An empty file is received, and reported as a success. -/
theorem empty_file_reported : ¬ ∀ files filename content clientAddress serverAddress packets,
    Receives files filename content clientAddress serverAddress packets →
    Decoded files filename content
      (handleRRQRequest files clientAddress serverAddress filename false packets) := by
  intro right
  have receives : Receives emptyDirectory (text "a.txt") [] ⟨0, 0⟩ ⟨0x7F000001, 69⟩
      [(.datagram ⟨0x7F000001, 9801⟩ (header 3 1), .ok)] :=
    ⟨by decide, by decide, by decide, by decide⟩
  exact undelimited_reports receives (by decide) (right _ _ _ _ _ _ receives)

end TFTP.DownloadVerdict
