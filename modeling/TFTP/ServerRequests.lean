import Std.Data.TreeMap.Lemmas
import TFTP.FileSystem
import TFTP.ServerLoops

/-!
# Request handlers over one file map and one disk

Every request runs in a thread of its own over the shared map `files` and the disk.
The code between two receive calls of a thread is one step. A handler that reached
undefined behaviour ends the run: nothing can be said about what follows.
-/

namespace TFTP.Server

open Octets Packet Sockets FileSystem Runs

/-- `std::map<std::string, int>`: reader counts by name, in the order of the names. -/
abbrev FileMap := Std.TreeMap Name Int

def fileExists (filename : Name) (files : FileMap) : Bool := files.contains filename

def canDelete (filename : Name) (files : FileMap) : Bool :=
  match files[filename]? with
  | none => false
  | some readers => readers == 0

/-- The lookup, erasure and reinsertion on either side of a read transfer. -/
def addReaders (files : FileMap) (filename : Name) (n : Int) : FileMap :=
  (files.erase filename).insert filename (files.getD filename 0 + n)

/-- The map built at start-up from the regular files of the database directory. -/
def initializeFileMap (regularFiles : List Name) : FileMap :=
  regularFiles.foldl (fun files filename => files.insertIfNew filename 0) ∅

structure Shared where
  files : FileMap
  disk : Disk

/-- What the operating system decides in one step. -/
structure Environment where
  io : LocalIO
  openFails : Bool
  readFails : Bool
  existsThrows : Bool
  removeThrows : Bool
  deriving DecidableEq

def Environment.ok : Environment := ⟨.ok, false, false, false, false⟩

inductive Access where
  | reads (path : List UInt8)
  | truncates (path : List UInt8)
  | removes (path : List UInt8)
  deriving DecidableEq

def Access.path : Access → List UInt8
  | .reads path => path
  | .truncates path => path
  | .removes path => path

/-- A thread between two receive calls, or at its end. -/
inductive Handler where
  | reading (filename : Name) (client : Addr) (loop : SendLoop)
  | writing (filename : Name) (client : Addr) (inode : Nat) (loop : WriteLoop)
  | listing (client : Addr) (loop : SendLoop)
  | done
  | undefined
  deriving DecidableEq

def Handler.active : Handler → Bool
  | .reading .. => true
  | .writing .. => true
  | .listing .. => true
  | .done => false
  | .undefined => false

structure Turn where
  handler : Handler
  shared : Shared
  accesses : List Access
  effects : List Effect

def contentAt (shared : Shared) (env : Environment) (path : List UInt8) : Option (List UInt8) :=
  if env.readFails then none else shared.disk.read (resolve path)

/-- The end of a turn of `handleReadRequest`: the loop goes on, or the count of readers
goes down. -/
def afterRead (shared : Shared) (filename : Name) (client : Addr)
    (turn : SendLoop × List Effect) : Turn :=
  if turn.1.status = .sending then
    { handler := .reading filename client turn.1
      shared := shared
      accesses := [.reads (filePath filename)]
      effects := turn.2 }
  else
    { handler := .done
      shared := { shared with files := addReaders shared.files filename (-1) }
      accesses := [.reads (filePath filename)]
      effects := turn.2 }

/-- The stream is opened before the name is looked up. -/
def handleReadRequest (shared : Shared) (filename : Name) (client : Addr) (ackBuffer : Buffer 4)
    (env : Environment) : Turn :=
  if fileExists filename shared.files then
    afterRead { shared with files := addReaders shared.files filename 1 } filename client
      (readTop client (contentAt shared env (filePath filename)) env.io (.start ackBuffer))
  else
    { handler := .done
      shared := shared
      accesses := [.reads (filePath filename)]
      effects := [sendError client errorFileNotFound "File not found"] }

def readTurn (shared : Shared) (filename : Name) (client : Addr) (loop : SendLoop) (e : Recv)
    (env : Environment) : Turn :=
  afterRead shared filename client
    (readStep client (contentAt shared env (filePath filename)) loop e env.io)

def openWrite (shared : Shared) (env : Environment) (path : List UInt8) : Option (Disk × Nat) :=
  if env.openFails then none else shared.disk.openWrite (resolve path)

def handleWriteRequest (shared : Shared) (filename : Name) (client : Addr) (env : Environment) :
    Turn :=
  if fileExists filename shared.files then
    { handler := .done
      shared := shared
      accesses := []
      effects := [sendError client errorFileAlreadyExists "File already exists."] }
  else
    match openWrite shared env (filePath filename) with
    | none =>
      { handler := .done
        shared := shared
        accesses := [.truncates (filePath filename)]
        effects := [sendError client errorDiskFull "Disk full or allocation exceeded."] }
    | some (disk, inode) =>
      { handler := .writing filename client inode .start
        shared := { shared with disk }
        accesses := [.truncates (filePath filename)]
        effects := [sendACK client 0] }

/-- The stream appends to what it wrote before; a short block inserts the name, which
leaves an entry that is there already as it is. -/
def writeTurn (shared : Shared) (filename : Name) (client : Addr) (inode : Nat) (loop : WriteLoop)
    (e : Recv) (env : Environment) : Turn :=
  let turn := writeStep client loop e env.io
  let disk := shared.disk.writeAt inode loop.content.length (writes turn.2).flatten
  { handler :=
      match turn.1.status with
      | .receiving => .writing filename client inode turn.1
      | .undefined => .undefined
      | _ => .done
    shared :=
      { files := if turn.1.status = .received then shared.files.insertIfNew filename 0
          else shared.files
        disk }
    accesses := []
    effects := turn.2 }

def refuse (shared : Shared) (accesses : List Access) (effect : Effect) : Turn :=
  ⟨.done, shared, accesses, [effect]⟩

def handleDeleteRequest (shared : Shared) (filename : Name) (client : Addr) (env : Environment) :
    Turn :=
  if ¬ fileExists filename shared.files then
    refuse shared [] (sendError client errorFileNotFound "File not found")
  else if ¬ canDelete filename shared.files then
    refuse shared []
      (sendError client errorNotDefined "File has active readers. Cannot delete file.")
  else if env.existsThrows then
    refuse shared [] (sendError client errorNotDefined "Exception Occured. cannot delete file")
  else if (shared.disk.entries (resolve (filePath filename))).isNone then
    refuse shared [] (sendError client errorFileNotFound "File not found")
  else if env.removeThrows then
    refuse shared [.removes (filePath filename)]
      (sendError client errorNotDefined "Exception Occured. cannot delete file")
  else
    { handler := .done
      shared :=
        { files := shared.files.erase filename
          disk := shared.disk.remove (resolve (filePath filename)) }
      accesses := [.removes (filePath filename)]
      effects := [sendACK client ackOk] }

def lsPath : List UInt8 := text "serverDatabase/ls.txt"

def listingOf (files : FileMap) : List UInt8 :=
  files.toList.flatMap fun entry =>
    entry.1 ++ text "\t [Active Readers] : " ++ text (toString entry.2) ++ text "\n"

def afterList (shared : Shared) (client : Addr) (accesses : List Access)
    (turn : SendLoop × List Effect) : Turn where
  handler := if turn.1.status = .sending then .listing client turn.1 else .done
  shared := shared
  accesses := accesses ++ [.reads lsPath]
  effects := turn.2

/-- `outputFile` is written and closed before the loop starts. -/
def handleLSRequest (shared : Shared) (client : Addr) (ackBuffer : Buffer 4) (env : Environment) :
    Turn :=
  match openWrite shared env lsPath with
  | none => ⟨.done, shared, [.truncates lsPath], []⟩
  | some (disk, inode) =>
    let listed := if env.io.writeFails then [] else listingOf shared.files
    let shared := { shared with disk := disk.writeAt inode 0 listed }
    afterList shared client [.truncates lsPath]
      (listTop client (contentAt shared env lsPath) env.io (.start ackBuffer))

def listTurn (shared : Shared) (client : Addr) (loop : SendLoop) (e : Recv) (env : Environment) :
    Turn :=
  afterList shared client [] (listStep client (contentAt shared env lsPath) loop e env.io)

inductive Request where
  | read (filename : Name)
  | write (filename : Name)
  | delete (filename : Name)
  | list
  deriving DecidableEq

/-- A new thread, up to its first receive call; `ackBuffer` is what its stack holds. -/
def begin (shared : Shared) (client : Addr) (ackBuffer : Buffer 4) (env : Environment) :
    Request → Turn
  | .read filename => handleReadRequest shared filename client ackBuffer env
  | .write filename => handleWriteRequest shared filename client env
  | .delete filename => handleDeleteRequest shared filename client env
  | .list => handleLSRequest shared client ackBuffer env

/-- A thread from one receive call to the next. -/
def advance (shared : Shared) (e : Recv) (env : Environment) : Handler → Turn
  | .reading filename client loop => readTurn shared filename client loop e env
  | .writing filename client inode loop => writeTurn shared filename client inode loop e env
  | .listing client loop => listTurn shared client loop e env
  | h => ⟨h, shared, [], []⟩

structure State where
  shared : Shared
  handlers : List Handler

inductive Action where
  | request (r : Request) (client : Addr) (ackBuffer : Buffer 4) (env : Environment)
  | turn (i : Nat) (e : Recv) (env : Environment)

def turnOf (s : State) : Action → Turn
  | .request r client ackBuffer env => begin s.shared client ackBuffer env r
  | .turn i e env => advance s.shared e env (s.handlers.getD i .done)

def Enabled (s : State) (a : Action) : Prop :=
  .undefined ∉ s.handlers ∧
    match a with
    | .request .. => True
    | .turn i _ _ => ∃ h, s.handlers[i]? = some h ∧ h.active

def step (s : State) (a : Action) : State where
  shared := (turnOf s a).shared
  handlers :=
    match a with
    | .request .. => s.handlers ++ [(turnOf s a).handler]
    | .turn i _ _ => s.handlers.set i (turnOf s a).handler

def machine : Machine State Action := ⟨Enabled, step⟩

/-- The state `start` listens in: the map lists the regular files of the database
directory, and no thread runs. -/
structure Initial (s : State) : Prop where
  idle : s.handlers = []
  wellFormed : s.shared.disk.WellFormed
  root : s.shared.disk.entries ⟨0, []⟩ = some .directory
  database : s.shared.disk.entries ⟨0, [databaseName]⟩ = some .directory
  listed : ∃ regularFiles, s.shared.files = initializeFileMap regularFiles ∧
    ∀ filename, filename ∈ regularFiles ↔
      Proper filename ∧ ∃ inode, s.shared.disk.entries (childOf filename) = some (.file inode)

theorem current_handler {s : State} {i : Nat} {h : Handler} (entry : s.handlers[i]? = some h) :
    s.handlers.getD i .done = h := by
  rw [List.getD, entry, Option.getD_some]

/-- A turn of a thread is what its handler does next. -/
theorem turnOf_turn {s : State} {i : Nat} {h : Handler} (entry : s.handlers[i]? = some h)
    (e : Recv) (env : Environment) :
    turnOf s (.turn i e env) = advance s.shared e env h := by
  rw [turnOf, current_handler entry]

theorem fileExists_iff {filename : Name} {files : FileMap} :
    fileExists filename files = true ↔ filename ∈ files :=
  Std.TreeMap.contains_iff_mem

/-- A plain name that opens for writing is a proper one: the others name directories. -/
theorem openWrite_proper {shared : Shared} {env : Environment} {filename : Name} {disk : Disk}
    {inode : Nat} (wf : shared.disk.WellFormed)
    (root : shared.disk.entries ⟨0, []⟩ = some .directory)
    (database : shared.disk.entries ⟨0, [databaseName]⟩ = some .directory)
    (plain : Plain filename)
    (opened : openWrite shared env (filePath filename) = some (disk, inode)) :
    env.openFails = false ∧ Proper filename ∧
      shared.disk.openWrite (childOf filename) = some (disk, inode) := by
  have opens : env.openFails = false := by
    cases fails : env.openFails with
    | false => rfl
    | true => simp [openWrite, fails] at opened
  rw [openWrite, opens] at opened
  obtain ⟨_, notDirectory, _⟩ := Disk.openWrite_spec wf opened
  have proper : Proper filename := by
    by_contra improper
    rcases resolve_improper plain improper with place | place
    · rw [place, database] at notDirectory
      exact notDirectory rfl
    · rw [place, root] at notDirectory
      exact notDirectory rfl
  refine ⟨opens, proper, ?_⟩
  rw [← resolve_proper proper]
  exact opened

theorem handleReadRequest_known {shared : Shared} {filename : Name}
    (known : filename ∈ shared.files) (client : Addr) (ackBuffer : Buffer 4) (env : Environment) :
    handleReadRequest shared filename client ackBuffer env =
      afterRead { shared with files := addReaders shared.files filename 1 } filename client
        (readTop client (contentAt shared env (filePath filename)) env.io (.start ackBuffer)) :=
  if_pos (fileExists_iff.mpr known)

theorem handleReadRequest_unknown {shared : Shared} {filename : Name}
    (unknown : filename ∉ shared.files) (client : Addr) (ackBuffer : Buffer 4)
    (env : Environment) :
    handleReadRequest shared filename client ackBuffer env =
      { handler := .done
        shared := shared
        accesses := [.reads (filePath filename)]
        effects := [sendError client errorFileNotFound "File not found"] } :=
  if_neg (fileExists_iff.not.mpr unknown)

theorem handleWriteRequest_known {shared : Shared} {filename : Name}
    (known : filename ∈ shared.files) (client : Addr) (env : Environment) :
    handleWriteRequest shared filename client env =
      { handler := .done
        shared := shared
        accesses := []
        effects := [sendError client errorFileAlreadyExists "File already exists."] } :=
  if_pos (fileExists_iff.mpr known)

theorem handleWriteRequest_unopened {shared : Shared} {filename : Name} {env : Environment}
    (new : filename ∉ shared.files) (client : Addr)
    (unopened : openWrite shared env (filePath filename) = none) :
    handleWriteRequest shared filename client env =
      { handler := .done
        shared := shared
        accesses := [.truncates (filePath filename)]
        effects := [sendError client errorDiskFull "Disk full or allocation exceeded."] } := by
  rw [handleWriteRequest, if_neg (fileExists_iff.not.mpr new), unopened]

theorem handleWriteRequest_opened {shared : Shared} {filename : Name} {env : Environment}
    {disk : Disk} {inode : Nat} (new : filename ∉ shared.files) (client : Addr)
    (opened : openWrite shared env (filePath filename) = some (disk, inode)) :
    handleWriteRequest shared filename client env =
      { handler := .writing filename client inode .start
        shared := { shared with disk }
        accesses := [.truncates (filePath filename)]
        effects := [sendACK client 0] } := by
  rw [handleWriteRequest, if_neg (fileExists_iff.not.mpr new), opened]

/-- A WRQ that is turned away ends at once and changes nothing; the others open their file. -/
theorem handleWriteRequest_cases (shared : Shared) (filename : Name) (client : Addr)
    (env : Environment) :
    ((handleWriteRequest shared filename client env).handler = .done ∧
      (handleWriteRequest shared filename client env).shared = shared) ∨
    ∃ disk inode, filename ∉ shared.files ∧
      openWrite shared env (filePath filename) = some (disk, inode) ∧
      (handleWriteRequest shared filename client env).handler =
        .writing filename client inode .start ∧
      (handleWriteRequest shared filename client env).shared = { shared with disk } := by
  by_cases there : filename ∈ shared.files
  · rw [handleWriteRequest_known there]
    exact Or.inl ⟨rfl, rfl⟩
  · cases opened : openWrite shared env (filePath filename) with
    | none =>
      rw [handleWriteRequest_unopened there client opened]
      exact Or.inl ⟨rfl, rfl⟩
    | some held =>
      rw [handleWriteRequest_opened there client opened]
      exact Or.inr ⟨held.1, held.2, there, rfl, rfl, rfl⟩

theorem handleDeleteRequest_done (shared : Shared) (filename : Name) (client : Addr)
    (env : Environment) : (handleDeleteRequest shared filename client env).handler = .done := by
  unfold handleDeleteRequest
  split_ifs <;> rfl

theorem mem_addReaders (files : FileMap) (filename f : Name) (n : Int) :
    f ∈ addReaders files filename n ↔ f = filename ∨ f ∈ files := by
  simp only [addReaders, Std.TreeMap.mem_insert, Std.TreeMap.mem_erase,
    Std.LawfulEqCmp.compare_eq_iff_eq]
  constructor
  · rintro (same | ⟨_, mem⟩)
    · exact Or.inl same.symm
    · exact Or.inr mem
  · rintro (rfl | mem)
    · exact Or.inl rfl
    · by_cases same : filename = f
      · exact Or.inl same
      · exact Or.inr ⟨by simpa using same, mem⟩

theorem mem_insertIfNew (files : FileMap) (filename f : Name) :
    f ∈ files.insertIfNew filename 0 ↔ f = filename ∨ f ∈ files := by
  rw [Std.TreeMap.mem_insertIfNew, Std.LawfulEqCmp.compare_eq_iff_eq, eq_comm]

theorem getD_addReaders (files : FileMap) (filename f : Name) (n : Int) :
    (addReaders files filename n).getD f 0 =
      files.getD f 0 + if f = filename then n else 0 := by
  simp only [addReaders, Std.TreeMap.getD_insert, Std.TreeMap.getD_erase,
    Std.LawfulEqCmp.compare_eq_iff_eq]
  by_cases same : filename = f
  · simp [same]
  · simp [same, Ne.symm same]

theorem getElem?_foldl_insertIfNew (regularFiles : List Name) (files : FileMap) (f : Name) :
    (regularFiles.foldl (fun files filename => files.insertIfNew filename 0) files)[f]? =
      if f ∈ files then files[f]? else if f ∈ regularFiles then some 0 else none := by
  induction regularFiles generalizing files with
  | nil => by_cases mem : f ∈ files <;> simp [mem]
  | cons filename rest ih =>
    rw [List.foldl_cons, ih]
    simp only [Std.TreeMap.mem_insertIfNew, Std.TreeMap.getElem?_insertIfNew,
      Std.LawfulEqCmp.compare_eq_iff_eq]
    by_cases same : filename = f
    · subst same
      by_cases mem : filename ∈ files <;> simp [mem]
    · by_cases mem : f ∈ files <;> simp [mem, same, Ne.symm same]

theorem getElem?_initializeFileMap (regularFiles : List Name) (f : Name) :
    (initializeFileMap regularFiles)[f]? = if f ∈ regularFiles then some 0 else none := by
  rw [initializeFileMap, getElem?_foldl_insertIfNew]
  simp

/-- No file in the map, and a disk with nothing on it. -/
def Shared.empty : Shared := ⟨∅, ⟨fun _ => none, fun _ => [], 0⟩⟩

/-- A server started over a database directory that holds one file. -/
def startedWith (filename : Name) (content : List UInt8) : State where
  shared :=
    { files := initializeFileMap [filename]
      disk :=
        { entries := fun l =>
            if l = childOf filename then some (.file 0)
            else if l = ⟨0, [databaseName]⟩ ∨ l = ⟨0, []⟩ then some .directory
            else none
          contents := fun _ => content
          fresh := 1 } }
  handlers := []

theorem startedWith_initial {filename : Name} (proper : Proper filename) (content : List UInt8) :
    Initial (startedWith filename content) := by
  have file : ∀ l inode, (startedWith filename content).shared.disk.entries l =
      some (.file inode) → l = childOf filename ∧ inode = 0 := by
    intro l inode entry
    simp only [startedWith] at entry
    split_ifs at entry with here above
    · exact ⟨here, by simpa using entry.symm⟩
    · cases entry
  constructor
  · rfl
  · exact ⟨fun k l i hk hl => (file k i hk).1.trans (file l i hl).1.symm,
      fun l i hl => by rw [(file l i hl).2]; exact Nat.one_pos⟩
  · simp [startedWith, childOf]
  · simp [startedWith, childOf]
  · refine ⟨[filename], rfl, fun f => ?_⟩
    rw [List.mem_singleton]
    constructor
    · rintro rfl
      exact ⟨proper, 0, if_pos rfl⟩
    · rintro ⟨_, inode, entry⟩
      exact childOf_injective (file _ _ entry).1

end TFTP.Server
