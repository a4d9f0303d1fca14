import TFTP.DecodedSuffix
import TFTP.Requests

/-!
# The client's view of the file system

Names come from the command line, so they hold no NUL, and are taken apart component by
component from the root or from the directory the client runs in; there are no links. A
file may be closed to reading or to writing, a place without a file may refuse a new one,
and what is there may refuse to go. What is written to an open file gets there.
-/

namespace TFTP.ClientFiles

open Octets
open FileSystem (Name slash dot dotdot components)

/-- The names on the way from the root, innermost first. -/
abbrev Place := List Name

inductive Entry where
  | file (bytes : List UInt8) (readable writable : Bool)
  | directory
  deriving DecidableEq

structure Files where
  workingDirectory : Place
  entry : Place → Option Entry
  creatable : Place → Bool
  removable : Place → Bool

def enter (place : Place) (c : Name) : Place :=
  if c = [] ∨ c = dot then place
  else if c = dotdot then place.tail
  else c :: place

/-- A name that ends in a slash or in a dot of its own leads into a directory, where no
file has an empty name. -/
def enterLast (place : Place) (c : Name) : Place :=
  if c = [] ∨ c = dot then [] :: place else enter place c

namespace Files

def start (files : Files) (path : Name) : Place :=
  if path.head? = some slash then [] else files.workingDirectory

def resolve (files : Files) (path : Name) : Place :=
  enterLast ((components path).dropLast.foldl enter (files.start path))
    ((components path).getLastD [])

/-- What an `ifstream` reads to its end; a directory opens and reads as nothing. -/
def openRead (files : Files) (l : Place) : Option (List UInt8) :=
  match files.entry l with
  | some (.file bytes true _) => some bytes
  | some .directory => some []
  | _ => none

/-- A stream opened with `std::ios::ate`: the end of a directory is no size. -/
def openAte (files : Files) (l : Place) : Option (Option (List UInt8)) :=
  match files.entry l with
  | some .directory => none
  | _ => some (files.openRead l)

def canWrite (files : Files) (l : Place) : Bool :=
  match files.entry l with
  | some (.file _ _ writable) => writable
  | some .directory => false
  | none => files.creatable l

/-- What a stream open for writing leaves behind, from the beginning of the file. -/
def put (files : Files) (l : Place) (bytes : List UInt8) : Files :=
  { files with
    entry := Function.update files.entry l
      (match files.entry l with
      | some (.file _ readable writable) => some (.file bytes readable writable)
      | some .directory => some .directory
      | none => some (.file bytes true true)) }

/-- `std::ofstream`: the file is made or emptied. -/
def openWrite (files : Files) (l : Place) : Option Files :=
  if files.canWrite l then some (files.put l []) else none

/-- What a step leaves behind that writes to a stream if it is taken and the stream opens. -/
def putIf (files : Files) (taken : Bool) (l : Place) (bytes : List UInt8) : Files :=
  if taken && files.canWrite l then files.put l bytes else files

/-- `if (fs::exists(path)) fs::remove(path);`, which throws for what does not go. -/
def remove (files : Files) (l : Place) : Option Files :=
  match files.entry l with
  | none => some files
  | some _ =>
    if files.removable l then some { files with entry := Function.update files.entry l none }
    else none

/-- The content of a regular file. -/
def bytes (files : Files) (l : Place) : Option (List UInt8) :=
  match files.entry l with
  | some (.file bytes _ _) => some bytes
  | _ => none

/-- Whether what is written to a place can be read back. -/
def readable (files : Files) (l : Place) : Bool :=
  match files.entry l with
  | some (.file _ readable _) => readable
  | some .directory => false
  | none => files.creatable l

/-- What is read at a place once it holds these bytes, or still has none. -/
def readsAs (files : Files) (l : Place) (bytes : Option (List UInt8)) : Option (List UInt8) :=
  if files.entry l = some .directory then some []
  else if files.readable l = true then bytes else none

section Put

variable {files : Files} {k l : Place} {b c : List UInt8}

theorem put_entry_of_ne (other : l ≠ k) : (files.put k b).entry l = files.entry l :=
  Function.update_of_ne other _ _

theorem put_openRead_of_ne (other : l ≠ k) : (files.put k b).openRead l = files.openRead l := by
  rw [openRead, put_entry_of_ne other, openRead]

/-- The entry a writable place has behind a write. -/
theorem put_entry_self (writable : files.canWrite k = true) :
    ∃ w, (files.put k b).entry k = some (.file b (files.readable k) w) := by
  simp only [canWrite] at writable
  simp only [put, readable, Function.update_self]
  split at writable
  · exact ⟨_, rfl⟩
  · cases writable
  · exact ⟨true, by rw [writable]⟩

theorem put_bytes_self (writable : files.canWrite k = true) :
    (files.put k b).bytes k = some b := by
  obtain ⟨w, entry⟩ := put_entry_self (b := b) writable
  rw [bytes, entry]

theorem put_openRead_self (writable : files.canWrite k = true) :
    (files.put k b).openRead k = if files.readable k then some b else none := by
  obtain ⟨w, entry⟩ := put_entry_self (b := b) writable
  rw [openRead, entry]
  cases files.readable k <;> rfl

theorem put_put : (files.put k b).put k c = files.put k c := by
  simp only [put, Function.update_idem, Function.update_self]
  cases files.entry k with
  | none => rfl
  | some e => cases e <;> rfl

@[simp] theorem put_resolve (path : Name) : (files.put k b).resolve path = files.resolve path := rfl

/-- A write changes neither what may be read nor what may be written. -/
theorem put_canWrite (writable : files.canWrite k = true) :
    (files.put k b).canWrite l = files.canWrite l := by
  by_cases same : l = k
  · subst same
    simp only [canWrite] at writable
    simp only [canWrite, put, Function.update_self]
    split at writable
    · rfl
    · cases writable
    · exact writable.symm
  · simp only [canWrite, put_entry_of_ne same]
    rfl

theorem put_readable (writable : files.canWrite k = true) :
    (files.put k b).readable l = files.readable l := by
  by_cases same : l = k
  · subst same
    obtain ⟨w, entry⟩ := put_entry_self (b := b) writable
    rw [readable, entry]
  · simp only [readable, put_entry_of_ne same]
    rfl

theorem put_directory : (files.put k b).entry l = some .directory ↔
    files.entry l = some .directory := by
  by_cases same : l = k
  · subst same
    simp only [put, Function.update_self]
    split <;> simp_all
  · rw [put_entry_of_ne same]

theorem openWrite_put : (match files.openWrite k with
    | some opened => opened.put k b
    | none => files) = files.putIf true k b := by
  simp only [openWrite, putIf, Bool.true_and]
  split_ifs
  · exact put_put
  · rfl

variable {taken : Bool}

@[simp] theorem putIf_canWrite : (files.putIf taken k b).canWrite l = files.canWrite l := by
  unfold putIf
  split_ifs with opens
  · exact put_canWrite (Bool.and_eq_true_iff.mp opens).2
  · rfl

@[simp] theorem putIf_readable : (files.putIf taken k b).readable l = files.readable l := by
  unfold putIf
  split_ifs with opens
  · exact put_readable (Bool.and_eq_true_iff.mp opens).2
  · rfl

@[simp] theorem putIf_directory : (files.putIf taken k b).entry l = some .directory ↔
    files.entry l = some .directory := by
  unfold putIf
  split_ifs
  · exact put_directory
  · rfl

@[simp] theorem putIf_resolve (path : Name) :
    (files.putIf taken k b).resolve path = files.resolve path := by
  unfold putIf
  split_ifs <;> rfl

@[simp] theorem putIf_removable : (files.putIf taken k b).removable l = files.removable l := by
  unfold putIf
  split_ifs <;> rfl

@[simp] theorem putIf_readsAs (bytes : Option (List UInt8)) :
    (files.putIf taken k b).readsAs l bytes = files.readsAs l bytes := by
  simp only [readsAs, putIf_directory, putIf_readable]

theorem putIf_entry_of_ne (other : l ≠ k) :
    (files.putIf taken k b).entry l = files.entry l := by
  unfold putIf
  split_ifs
  · exact put_entry_of_ne other
  · rfl

theorem putIf_bytes_of_ne (other : l ≠ k) :
    (files.putIf taken k b).bytes l = files.bytes l := by
  rw [bytes, putIf_entry_of_ne other, bytes]

theorem putIf_entry_self : (files.putIf taken k b).entry k ≠ none ↔
    files.entry k ≠ none ∨ (taken && files.canWrite k) = true := by
  unfold putIf
  split_ifs with opens
  · obtain ⟨w, entry⟩ := put_entry_self (b := b) (Bool.and_eq_true_iff.mp opens).2
    simp [entry, opens]
  · simp [opens]

theorem putIf_bytes_self : (files.putIf taken k b).bytes k =
    if (taken && files.canWrite k) = true then some b else files.bytes k := by
  unfold putIf
  split_ifs with opens
  · exact put_bytes_self (Bool.and_eq_true_iff.mp opens).2
  · rfl

end Put

theorem not_directory {files : Files} {l : Place} (writable : files.canWrite l = true) :
    files.entry l ≠ some .directory := by
  intro directory
  rw [canWrite, directory] at writable
  cases writable

/-- Everything but a directory opens at its end as it opens at its beginning. -/
theorem openAte_eq {files : Files} {l : Place} (other : files.entry l ≠ some .directory) :
    files.openAte l = some (files.openRead l) := by
  unfold openAte
  split
  · exact absurd (by assumption) other
  · rfl

/-- What opens is read as it is. -/
theorem openRead_readsAs (files : Files) (l : Place) :
    files.openRead l = files.readsAs l (files.bytes l) := by
  unfold readsAs
  cases entry : files.entry l with
  | none =>
    simp only [openRead, readable, bytes, entry]
    exact (ite_self none).symm
  | some e =>
    cases e with
    | directory => simp only [openRead, entry, if_true]
    | file content r w =>
      simp only [openRead, readable, bytes, entry]
      cases r <;> rfl

theorem openRead_eq {files : Files} {l : Place} (other : files.entry l ≠ some .directory) :
    files.openRead l = if files.readable l then files.bytes l else none := by
  rw [openRead_readsAs, readsAs, if_neg other]

theorem openAte_directory {files : Files} {l : Place}
    (directory : files.entry l = some .directory) : files.openAte l = none := by
  rw [openAte, directory]

end Files

/-- The name up to its last dot, or all of it. -/
def filenameWithoutExtension (strFilename : Name) : Name :=
  if 46 ∈ strFilename then (strFilename.rdropWhile (· ≠ 46)).dropLast else strFilename

theorem compressedName_eq (filename : Name) :
    Requests.compressedName filename = filenameWithoutExtension filename ++ text "compress.bin" :=
  rfl

theorem filename_split (filename : Name) :
    (46 ∉ filename ∧ filenameWithoutExtension filename = filename) ∨
      ∃ ext, 46 ∉ ext ∧ filename = filenameWithoutExtension filename ++ 46 :: ext := by
  induction filename using List.reverseRecOn with
  | nil => exact Or.inl ⟨List.not_mem_nil, rfl⟩
  | append_singleton name c ih =>
    by_cases last : c = 46
    · subst last
      refine Or.inr ⟨[], List.not_mem_nil, ?_⟩
      rw [filenameWithoutExtension, if_pos (by simp), List.rdropWhile_concat_neg _ _ _ (by simp),
        List.dropLast_concat]
    · rcases ih with ⟨none, _⟩ | ⟨ext, clean, split⟩
      · have absent : 46 ∉ name ++ [c] := by
          simp only [List.mem_append, List.mem_singleton, none, false_or]
          exact Ne.symm last
        exact Or.inl ⟨absent, if_neg absent⟩
      · have there : 46 ∈ name := by
          rw [split]
          simp
        have same : filenameWithoutExtension (name ++ [c]) = filenameWithoutExtension name := by
          rw [filenameWithoutExtension, filenameWithoutExtension, if_pos there,
            if_pos (List.mem_append_left [c] there),
            List.rdropWhile_concat_pos _ _ _ (by simpa using last)]
        refine Or.inr ⟨ext ++ [c], ?_, ?_⟩
        · simp only [List.mem_append, List.mem_singleton, clean, false_or]
          exact Ne.symm last
        · rw [same]
          conv_lhs => rw [split]
          rw [List.append_assoc, List.cons_append]

theorem components_slash (p : Name) {s : Name} (plain : slash ∉ s) :
    components (p ++ slash :: s) = components p ++ [s] := by
  rw [components, List.splitOn_append_cons_self, List.splitOn_eq_singleton plain]
  rfl

theorem components_plain {s : Name} (plain : slash ∉ s) : components s = [s] :=
  List.splitOn_eq_singleton plain

theorem enterLast_long (place : Place) {c : Name} (long : 3 ≤ c.length) :
    enterLast place c = c :: place := by
  have other : ∀ d : Name, d.length < 3 → c ≠ d := by
    rintro d lt rfl
    omega
  have one := other dot (by decide)
  have two := other dotdot (by decide)
  have none := other [] (by decide)
  simp only [enterLast, enter, none, one, two, or_self, if_false]

theorem enterLast_clean (place : Place) {c : Name} (clean : 46 ∉ c) :
    enterLast place c = c :: place := by
  have one : c ≠ dot := by
    rintro rfl
    exact clean (by decide)
  have two : c ≠ dotdot := by
    rintro rfl
    exact clean (by decide)
  by_cases none : c = []
  · rw [none, enterLast, if_pos (Or.inl rfl)]
  · simp only [enterLast, enter, none, one, two, or_self, if_false]

/-- A dot tells two last components apart. -/
theorem enterLast_ne_dotted {place place' : Place} {c x : Name} (clean : 46 ∉ c)
    (dotted : 46 ∈ x) : x :: place' ≠ enterLast place c := by
  rw [enterLast_clean place clean]
  intro same
  rw [(List.cons.inj same).1] at dotted
  exact clean dotted

theorem enterLast_eq_cons {place : Place} {c x : Name} (some : x ≠ [])
    (same : enterLast place c = x :: place) : c = x := by
  unfold enterLast enter at same
  split_ifs at same
  · exact absurd (List.cons.inj same).1.symm some
  · have size := congrArg List.length same
    rw [List.length_tail, List.length_cons] at size
    omega
  · exact (List.cons.inj same).1

/-- Only what stands behind its last slash decides between names that begin alike. -/
theorem resolve_append (files : Files) (p : Name) : ∃ place q, q <:+ p ∧ slash ∉ q ∧
    ∀ s, slash ∉ s → files.resolve (p ++ s) = enterLast place (q ++ s) := by
  induction p using List.reverseRecOn with
  | nil =>
    refine ⟨files.workingDirectory, [], List.suffix_rfl, List.not_mem_nil, fun s plain => ?_⟩
    have relative : files.start s = files.workingDirectory :=
      if_neg fun head => plain (List.mem_of_mem_head? head)
    rw [List.nil_append, Files.resolve, components_plain plain, relative]
    rfl
  | append_singleton p c ih =>
    by_cases sep : c = slash
    · subst sep
      refine ⟨(components p).foldl enter (files.start (p ++ [slash])), [], List.nil_suffix,
        List.not_mem_nil, fun s plain => ?_⟩
      have same : files.start (p ++ slash :: s) = files.start (p ++ [slash]) := by
        cases p <;> rfl
      rw [List.append_assoc, List.singleton_append, Files.resolve, components_slash p plain, same,
        List.dropLast_concat, List.getLastD_concat]
      rfl
    · obtain ⟨place, q, suffix, clean, resolves⟩ := ih
      have others : ∀ s, slash ∉ s → slash ∉ [c] ++ s := by
        intro s plain mem
        rcases List.mem_append.mp mem with mem | mem
        · exact sep (List.mem_singleton.mp mem).symm
        · exact plain mem
      refine ⟨place, q ++ [c], ?_, ?_, fun s plain => ?_⟩
      · obtain ⟨front, rfl⟩ := suffix
        exact ⟨front, (List.append_assoc _ _ _).symm⟩
      · intro mem
        rcases List.mem_append.mp mem with mem | mem
        · exact clean mem
        · exact others [] List.not_mem_nil mem
      · rw [List.append_assoc, List.append_assoc]
        exact resolves ([c] ++ s) (others s plain)

section Places

variable (files : Files) {s t : Name}

theorem resolve_plain (plain : slash ∉ s) (long : 3 ≤ s.length) :
    files.resolve s = s :: files.workingDirectory := by
  have relative : files.start s = files.workingDirectory :=
    if_neg fun head => plain (List.mem_of_mem_head? head)
  rw [Files.resolve, components_plain plain, relative]
  exact enterLast_long _ long

/-- Different endings of one name. -/
theorem resolve_ne_of_ne (p : Name) (plainS : slash ∉ s) (plainT : slash ∉ t)
    (longS : 3 ≤ s.length) (longT : 3 ≤ t.length) (other : s ≠ t) :
    files.resolve (p ++ s) ≠ files.resolve (p ++ t) := by
  obtain ⟨place, q, _, _, resolves⟩ := resolve_append files p
  rw [resolves s plainS, resolves t plainT,
    enterLast_long _ (by rw [List.length_append]; omega),
    enterLast_long _ (by rw [List.length_append]; omega)]
  intro same
  exact other (List.append_cancel_left (List.cons.inj same).1)

/-- A name with an ending that another one does not have. -/
theorem resolve_ne_of_suffix (p : Name) (plainS : slash ∉ s) (plainT : slash ∉ t)
    (longS : 3 ≤ s.length) (longT : 3 ≤ t.length) (other : ¬ s <:+ t) :
    files.resolve (p ++ s) ≠ files.resolve t := by
  obtain ⟨place, q, _, _, resolves⟩ := resolve_append files p
  rw [resolves s plainS, resolve_plain files plainT longT,
    enterLast_long _ (by rw [List.length_append]; omega)]
  intro same
  exact other ⟨q, (List.cons.inj same).1⟩

/-- The compressed file is never the file itself, whatever its name is. -/
theorem compressed_ne_input (filename : Name) :
    files.resolve (Requests.compressedName filename) ≠ files.resolve filename := by
  have plain : slash ∉ text "compress.bin" := by decide
  obtain ⟨place, q, suffix, _, resolves⟩ :=
    resolve_append files (filenameWithoutExtension filename)
  rw [compressedName_eq, resolves _ plain, enterLast_long _ (by
    rw [List.length_append]
    exact Nat.le_add_left_of_le (by decide))]
  have dotted : 46 ∈ q ++ text "compress.bin" := List.mem_append_right _ (by decide)
  rcases filename_split filename with ⟨clean, whole⟩ | ⟨ext, clean, split⟩
  · have input := resolves [] List.not_mem_nil
    rw [List.append_nil, List.append_nil, whole] at input
    rw [whole] at suffix
    rw [input]
    exact enterLast_ne_dotted (fun mem => clean (suffix.subset mem)) dotted
  · by_cases deeper : slash ∈ ext
    · obtain ⟨place', q', suffix', plain', resolves'⟩ := resolve_append files filename
      have input := resolves' [] List.not_mem_nil
      rw [List.append_nil, List.append_nil] at input
      have behind : q' <:+ ext := by
        have tail : ext <:+ filename := by
          rw [split]
          exact ⟨filenameWithoutExtension filename ++ [46], by simp⟩
        rcases List.suffix_or_suffix_of_suffix suffix' tail with inside | outside
        · exact inside
        · exact absurd (outside.subset deeper) plain'
      rw [input]
      exact enterLast_ne_dotted (fun mem => clean (behind.subset mem)) dotted
    · have input := resolves (46 :: ext) fun mem => deeper (by
        rcases List.mem_cons.mp mem with same | mem
        · exact absurd same (by decide)
        · exact mem)
      rw [← split] at input
      rw [input]
      intro same
      have ends := enterLast_eq_cons (by simp [text]) same.symm
      exact absurd (List.cons.inj (List.append_cancel_left ends)).1 (by decide)

end Places

end TFTP.ClientFiles
