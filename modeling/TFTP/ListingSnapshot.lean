import TFTP.Immutability

/-!
# Listings and the file they are sent from

A listing is rendered once into a file that all threads share, and every block is read
from whatever that file holds when the block's turn comes. One thread is watched, through
a run of all of them: what it sends is the map of a single step as long as nobody else
changes the file.
-/

namespace TFTP.ListingSnapshot

open Octets Packet Sockets FileSystem Runs Server

/-- What is known of the watched thread: the map as it rendered it, its DATA packets
without immediate repetitions, and whether it got to its end. -/
structure Listing where
  rendering : List UInt8
  sent : List (List UInt8)
  completed : Bool

/-- The server, all maps it has gone through, and the watched thread. -/
structure Traced where
  state : State
  maps : List FileMap
  listing : Listing

def dataSent (client : Addr) (effects : List Effect) : List (List UInt8) :=
  (sentTo client effects).filter fun p => opcodeOf p = opcodeData

/-- A retransmission is not noted twice. -/
def note (sent : List (List UInt8)) (p : List UInt8) : List (List UInt8) :=
  if sent.getLast? = some p then sent else sent ++ [p]

def noteTurn (client : Addr) (r : Listing) (turn : SendLoop × List Effect) : Listing :=
  { r with
    sent := (dataSent client turn.2).foldl note r.sent
    completed := decide (turn.1.status = .finished) }

/-- The payloads of the packets, one behind the other. -/
def concatenation (sent : List (List UInt8)) : List UInt8 := (sent.map (List.drop 4)).flatten

/-- The thread at index `i` is watched. -/
def watch (i : Nat) (r : Listing) (s : State) (a : Action) : Listing :=
  match a with
  | .request .list client ackBuffer env =>
    if s.handlers.length = i ∧ openWrite s.shared env lsPath ≠ none then
      noteTurn client ⟨listingOf s.shared.files, [], false⟩
        (listTop client (contentAt (turnOf s a).shared env lsPath) env.io (.start ackBuffer))
    else r
  | .request _ _ _ _ => r
  | .turn j e env =>
    match s.handlers.getD j .done with
    | .listing client loop =>
      if j = i then
        noteTurn client r (listStep client (contentAt s.shared env lsPath) loop e env.io)
      else r
    | _ => r

def start (s : State) : Traced := ⟨s, [s.shared.files], ⟨[], [], false⟩⟩

def traced (i : Nat) : Machine Traced Action where
  enabled := fun t a => Enabled t.state a
  step := fun t a =>
    { state := Server.step t.state a
      maps := t.maps ++ [(Server.step t.state a).shared.files]
      listing := watch i t.listing t.state a }

/-- Steps that leave something else in the file than this rendering. -/
def Rewrites (rendering : List UInt8) (s : State) : Action → Prop
  | .request (.read _) _ _ _ => False
  | .request (.write filename) _ _ env =>
    resolve (filePath filename) = resolve lsPath ∧ filename ∉ s.shared.files ∧
      env.openFails = false
  | .request (.delete filename) _ _ env =>
    resolve (filePath filename) = resolve lsPath ∧ canDelete filename s.shared.files = true ∧
      env.existsThrows = false ∧ env.removeThrows = false
  | .request .list _ _ env =>
    env.openFails = false ∧ (env.io.writeFails = true ∨ listingOf s.shared.files ≠ rendering)
  | .turn j e env =>
    match s.handlers.getD j .done with
    | .writing filename client _ loop =>
      resolve (filePath filename) = resolve lsPath ∧ writes (writeStep client loop e env.io).2 ≠ []
    | _ => False

def InLoop (i : Nat) (s : State) : Prop :=
  ∃ client loop, s.handlers[i]? = some (.listing client loop)

/-- The watched thread writes its file and reads it, and while it is in its loop no other
thread rewrites the file. -/
def Undisturbed (i : Nat) (t : Traced) (a : Action) : Prop :=
  match a with
  | .request r _ _ env =>
    if t.state.handlers.length = i then
      r = .list → env.io.writeFails = false ∧ env.readFails = false
    else InLoop i t.state → ¬ Rewrites t.listing.rendering t.state a
  | .turn j _ env =>
    InLoop i t.state →
      if j = i then env.readFails = false else ¬ Rewrites t.listing.rendering t.state a

/-- No old inode gets a name. -/
structure Extends (disk disk' : Disk) : Prop where
  wf : disk.WellFormed → disk'.WellFormed
  fresh : disk.fresh ≤ disk'.fresh
  old : ∀ l inode, inode < disk.fresh → disk'.entries l = some (.file inode) →
    disk.entries l = some (.file inode)

theorem extends_of_entries {disk disk' : Disk} (entries : disk'.entries = disk.entries)
    (fresh : disk'.fresh = disk.fresh) : Extends disk disk' := by
  constructor
  · exact fun wf => Disk.wellFormed_congr wf entries fresh
  · exact Nat.le_of_eq fresh.symm
  · intro l inode _ entry
    rw [← entries]
    exact entry

theorem openWrite_extends {disk disk' : Disk} {l : Location} {inode : Nat}
    (opened : disk.openWrite l = some (disk', inode)) : Extends disk disk' := by
  have wf : disk.WellFormed → disk'.WellFormed := fun wf => (Disk.openWrite_spec wf opened).1
  unfold Disk.openWrite at opened
  split at opened
  · cases opened
  · obtain ⟨same, _⟩ := Prod.mk.inj (Option.some.inj opened)
    rw [← same]
    exact extends_of_entries rfl rfl
  · obtain ⟨created, _⟩ := Prod.mk.inj (Option.some.inj opened)
    constructor
    · exact wf
    · rw [← created]
      exact Nat.le_succ _
    · intro k i below entry
      rw [← created] at entry
      rcases Disk.create_entry entry with ⟨_, new⟩ | old
      · exact absurd new (Nat.ne_of_lt below)
      · exact old

theorem remove_extends (disk : Disk) (l : Location) : Extends disk (disk.remove l) := by
  constructor
  · exact fun wf => Disk.remove_wellFormed wf l
  · exact Nat.le_refl _
  · intro k inode _ entry
    by_cases same : k = l
    · rw [same, Disk.remove_entries_self] at entry
      cases entry
    · exact (disk.remove_entries_of_ne same).symm.trans entry

/-- The inode an upload writes to has no name but the upload's own. -/
def Behind (disk : Disk) : Handler → Prop
  | .writing filename _ inode _ => inode < disk.fresh ∧
    ∀ l, disk.entries l = some (.file inode) → l = resolve (filePath filename)
  | _ => True

structure Held (s : State) : Prop where
  wf : s.shared.disk.WellFormed
  behind : ∀ h ∈ s.handlers, Behind s.shared.disk h

theorem Behind.extend {disk disk' : Disk} {h : Handler} (behind : Behind disk h)
    (grows : Extends disk disk') : Behind disk' h := by
  cases h with
  | writing filename client inode loop =>
    obtain ⟨below, names⟩ := behind
    exact ⟨Nat.lt_of_lt_of_le below grows.fresh,
      fun l entry => names l (grows.old l inode below entry)⟩
  | _ => trivial

/-- What a turn leaves behind, thread and files. -/
def Fits (s : State) (turn : Turn) : Prop :=
  Extends s.shared.disk turn.shared.disk ∧ Behind turn.shared.disk turn.handler

theorem fits_same {s : State} {turn : Turn} (disk : turn.shared.disk = s.shared.disk)
    (noUpload : ∀ f c n l, turn.handler ≠ .writing f c n l) : Fits s turn := by
  constructor
  · exact extends_of_entries (congrArg Disk.entries disk) (congrArg Disk.fresh disk)
  · cases handler : turn.handler with
    | writing f c n l => exact absurd handler (noUpload f c n l)
    | _ => trivial

theorem afterRead_fits {s : State} {shared : Shared} (disk : shared.disk = s.shared.disk)
    (filename : Name) (client : Addr) (turn : SendLoop × List Effect) :
    Fits s (afterRead shared filename client turn) := by
  apply fits_same
  · unfold afterRead
    split_ifs <;> exact disk
  · intro f c n l
    unfold afterRead
    split_ifs <;> simp

theorem begin_fits {s : State} (wf : s.shared.disk.WellFormed) (r : Request) (client : Addr)
    (ackBuffer : Buffer 4) (env : Environment) :
    Fits s (begin s.shared client ackBuffer env r) := by
  cases r with
  | read filename =>
    simp only [begin, handleReadRequest]
    split_ifs
    · refine afterRead_fits ?_ filename client _
      rfl
    · exact fits_same rfl (by simp)
  | write filename =>
    rcases handleWriteRequest_cases s.shared filename client env with
      ⟨done, same⟩ | ⟨disk, inode, _, opened, handler, shared⟩
    · exact fits_same (congrArg Shared.disk same) fun f c n l up => by cases done.symm.trans up
    · have place := (Option.ite_none_left_eq_some.mp opened).2
      obtain ⟨wf', _, node, _⟩ := Disk.openWrite_spec wf place
      rw [Fits, begin, handler, shared]
      exact ⟨openWrite_extends place, wf'.below _ _ node,
        fun l entry => wf'.single _ _ _ entry node⟩
  | delete filename =>
    simp only [begin, handleDeleteRequest]
    split_ifs
    all_goals first
      | exact fits_same rfl (by simp [refuse])
      | exact ⟨remove_extends _ _, trivial⟩
  | list =>
    simp only [begin, handleLSRequest]
    cases opened : openWrite s.shared env lsPath with
    | none => exact fits_same rfl (by simp)
    | some held =>
      obtain ⟨disk, inode⟩ := held
      have place := (Option.ite_none_left_eq_some.mp opened).2
      obtain ⟨wf', fresh, old⟩ := openWrite_extends place
      constructor
      · exact ⟨fun wf => ⟨(wf' wf).single, (wf' wf).below⟩, fresh, old⟩
      · simp only [afterList]
        split_ifs <;> trivial

theorem advance_fits {s : State} {h : Handler} (behind : Behind s.shared.disk h) (e : Recv)
    (env : Environment) : Fits s (advance s.shared e env h) := by
  cases h with
  | reading filename client loop => exact afterRead_fits rfl filename client _
  | writing filename client inode loop =>
    simp only [advance, writeTurn]
    refine ⟨extends_of_entries rfl rfl, ?_⟩
    split
    · exact behind
    · trivial
    · trivial
  | listing client loop =>
    refine fits_same rfl fun f c n l => ?_
    simp only [advance, listTurn, afterList]
    split_ifs <;> simp
  | done => exact fits_same rfl (by simp [advance])
  | undefined => exact fits_same rfl (by simp [advance])

theorem Held.current {s : State} (held : Held s) (i : Nat) :
    Behind s.shared.disk (s.handlers.getD i .done) := by
  cases entry : s.handlers[i]? with
  | none =>
    rw [List.getD, entry]
    trivial
  | some h =>
    rw [List.getD, entry]
    exact held.behind h (List.mem_of_getElem? entry)

theorem turn_fits {s : State} (held : Held s) (a : Action) : Fits s (turnOf s a) := by
  cases a with
  | request r client ackBuffer env => exact begin_fits held.wf r client ackBuffer env
  | turn i e env => exact advance_fits (held.current i) e env

theorem step_held {s : State} (held : Held s) (a : Action) : Held (Server.step s a) := by
  obtain ⟨extends_, behind⟩ := turn_fits held a
  constructor
  · exact extends_.wf held.wf
  · intro h mem
    have known : h ∈ s.handlers ∨ h = (turnOf s a).handler := by
      cases a with
      | request r client ackBuffer env =>
        exact (List.mem_append.mp mem).imp_right List.mem_singleton.mp
      | turn i e env => exact List.mem_or_eq_of_mem_set mem
    rcases known with old | new
    · exact (held.behind h old).extend extends_
    · rw [new]
      exact behind

theorem read_openWrite_of_ne {disk disk' : Disk} {k l : Location} {inode : Nat}
    (wf : disk.WellFormed) (opened : disk.openWrite l = some (disk', inode)) (other : k ≠ l) :
    disk'.read k = disk.read k := by
  obtain ⟨_, _, _, _, rest⟩ := Disk.openWrite_spec wf opened
  obtain ⟨entries, contents⟩ := rest k other
  unfold Disk.read
  rw [entries]
  split
  · rename_i inode entry
    rw [contents _ entry]
  · rfl

theorem read_remove_of_ne (disk : Disk) {k l : Location} (other : k ≠ l) :
    (disk.remove l).read k = disk.read k := by
  simp only [Disk.read, disk.remove_entries_of_ne other]
  rfl

theorem read_writeAt_unnamed {disk : Disk} {k : Location} {inode : Nat}
    (unnamed : disk.entries k ≠ some (.file inode)) (offset : Nat) (bytes : List UInt8) :
    (disk.writeAt inode offset bytes).read k = disk.read k := by
  cases entry : disk.entries k with
  | none => simp only [Disk.read, Disk.writeAt, entry]
  | some node =>
    cases node with
    | directory => simp only [Disk.read, Disk.writeAt, entry]
    | file i =>
      have other : i ≠ inode := fun same => unnamed (same ▸ entry)
      simp only [Disk.read, Disk.writeAt, entry, Function.update_of_ne other]

/-- A listing that opens its file leaves its rendering, or nothing, in it. -/
theorem read_list {s : State} (client : Addr) (ackBuffer : Buffer 4) {env : Environment}
    (opens : openWrite s.shared env lsPath ≠ none) :
    (begin s.shared client ackBuffer env .list).shared.disk.read (resolve lsPath) =
      some (if env.io.writeFails then [] else listingOf s.shared.files) := by
  cases opened : openWrite s.shared env lsPath with
  | none => exact absurd opened opens
  | some held =>
    obtain ⟨disk, inode⟩ := held
    obtain ⟨node, empty⟩ := Disk.openWrite_empties (Option.ite_none_left_eq_some.mp opened).2
    rw [Disk.read_eq_some]
    refine ⟨inode, ?_, ?_⟩
    · simp only [begin, handleLSRequest, opened, afterList, Disk.writeAt]
      exact node
    · simp only [begin, handleLSRequest, opened, afterList]
      exact Disk.contents_writeAt_end empty _

theorem list_renders {s : State} (client : Addr) (ackBuffer : Buffer 4) {env : Environment}
    (opens : openWrite s.shared env lsPath ≠ none) (stored : env.io.writeFails = false) :
    (begin s.shared client ackBuffer env .list).shared.disk.read (resolve lsPath) =
      some (listingOf s.shared.files) := by
  rw [read_list client ackBuffer opens, if_neg (by rw [stored]; exact Bool.false_ne_true)]

theorem openWrite_none {s : State} {env : Environment} (fails : env.openFails = true)
    (path : List UInt8) : openWrite s.shared env path = none := if_pos fails

/-- A request that does not rewrite the file leaves it as it was. -/
theorem request_keeps_file {s : State} (held : Held s) {r : Request} {client : Addr}
    {ackBuffer : Buffer 4} {env : Environment} {rendering : List UInt8}
    (kept : ¬ Rewrites rendering s (.request r client ackBuffer env))
    (read : s.shared.disk.read (resolve lsPath) = some rendering) :
    (begin s.shared client ackBuffer env r).shared.disk.read (resolve lsPath) =
      some rendering := by
  rw [← read]
  cases r with
  | read filename =>
    simp only [begin, handleReadRequest]
    split_ifs
    · unfold afterRead
      split_ifs <;> rfl
    · rfl
  | write filename =>
    simp only [begin, handleWriteRequest]
    split_ifs with there
    · rfl
    · cases opened : openWrite s.shared env (filePath filename) with
      | none => rfl
      | some opening =>
        obtain ⟨disk, inode⟩ := opening
        obtain ⟨opens, place⟩ := Option.ite_none_left_eq_some.mp opened
        refine read_openWrite_of_ne held.wf place fun same => kept ?_
        exact ⟨same.symm, fun mem => there (fileExists_iff.mpr mem),
          Bool.eq_false_iff.mpr opens⟩
  | delete filename =>
    simp only [begin, handleDeleteRequest]
    split_ifs with there free throws gone throws'
    all_goals try rfl
    refine read_remove_of_ne _ fun same => kept ?_
    exact ⟨same.symm, free, Bool.eq_false_iff.mpr throws,
      Bool.eq_false_iff.mpr throws'⟩
  | list =>
    by_cases opens : openWrite s.shared env lsPath = none
    · simp only [begin, handleLSRequest, opens]
    · have openable : env.openFails = false := by
        by_contra fails
        exact opens (openWrite_none (Bool.eq_true_of_not_eq_false fails) lsPath)
      obtain ⟨stored, same⟩ := not_or.mp fun which => kept ⟨openable, which⟩
      rw [list_renders client ackBuffer opens (Bool.eq_false_of_not_eq_true stored),
        not_not.mp same, read]

theorem turn_keeps_file {s : State} (held : Held s) {i : Nat} {e : Recv} {env : Environment}
    {rendering : List UInt8} (kept : ¬ Rewrites rendering s (.turn i e env)) :
    (turnOf s (.turn i e env)).shared.disk.read (resolve lsPath) =
      s.shared.disk.read (resolve lsPath) := by
  cases current : s.handlers.getD i .done with
  | writing filename client inode loop =>
    simp only [Rewrites, current, not_and_or, not_not] at kept
    simp only [turnOf, current, advance, writeTurn]
    rcases kept with elsewhere | silent
    · have behind := held.current i
      rw [current] at behind
      exact read_writeAt_unnamed (fun entry => elsewhere (behind.2 _ entry).symm) _ _
    · rw [silent]
      simp only [List.flatten_nil, Disk.writeAt_nil]
  | reading filename client loop =>
    simp only [turnOf, current, advance, readTurn]
    unfold afterRead
    split_ifs <;> rfl
  | listing client loop => simp only [turnOf, current, advance, listTurn, afterList]
  | done => simp only [turnOf, current, advance]
  | undefined => simp only [turnOf, current, advance]

/-- DATA packets 1 to `k` of a rendering. -/
def packets (rendering : List UInt8) (k : Nat) : List (List UInt8) :=
  (List.range k).map fun j => header 3 (UInt16.ofNat (j + 1)) ++ block rendering (j + 1)

theorem packets_succ (rendering : List UInt8) (k : Nat) :
    packets rendering (k + 1) = packets rendering k ++
      [header 3 (UInt16.ofNat (k + 1)) ++ block rendering (k + 1)] := by
  simp [packets, List.range_succ]

theorem concatenation_packets (rendering : List UInt8) (k : Nat) :
    concatenation (packets rendering k) = rendering.take (k * 512) := by
  rw [← Blocks.first_flatten, concatenation, packets, List.map_map, Blocks.first]
  rfl

/-- The last packet, once more. -/
theorem note_again (rendering : List UInt8) (k : Nat) :
    note (packets rendering (k + 1))
      (header 3 (UInt16.ofNat (k + 1)) ++ block rendering (k + 1)) =
      packets rendering (k + 1) := by
  rw [packets_succ, note, List.getLast?_append_of_ne_nil _ (List.cons_ne_nil _ _)]
  exact if_pos rfl

theorem note_next (rendering : List UInt8) {k : Nat} (small : k + 1 < 65536) :
    note (packets rendering k) (header 3 (UInt16.ofNat (k + 1)) ++ block rendering (k + 1)) =
      packets rendering (k + 1) := by
  rw [packets_succ]
  refine if_neg fun last => ?_
  cases k with
  | zero => cases last
  | succ k =>
    rw [packets_succ, List.getLast?_append_of_ne_nil _ (List.cons_ne_nil _ _),
      List.getLast?_singleton] at last
    have same := congrArg numberOf (Option.some.inj last)
    rw [numberOf_header, numberOf_header] at same
    have value := congrArg UInt16.toNat same
    rw [UInt16.toNat_ofNat', UInt16.toNat_ofNat'] at value
    omega

/-- The thread waits for the acknowledgement of block `b + 1`. A number from 128 on never
comes, since block 128 is never acknowledged. -/
structure Waiting (r : Listing) (loop : SendLoop) (b : Nat) : Prop where
  live : loop.status = .sending
  unfinished : r.completed = false
  number : loop.blockNumber = UInt16.ofNat (b + 1)
  bounded : b < 128
  below : b * 512 < r.rendering.length
  size : loop.dataSize = (block r.rendering (b + 1)).length
  sent : r.sent = packets r.rendering (b + 1)

/-- It goes on waiting, or it stops, at its end only with everything sent. -/
def Progress (r : Listing) (loop : SendLoop) : Prop :=
  (∃ b, Waiting r loop b) ∨
    (loop.status ≠ .sending ∧ (r.completed = true → concatenation r.sent = r.rendering))

theorem dataSent_data (client : Addr) (n : UInt16) (p : List UInt8) :
    dataSent client [.send client (header 3 n ++ p)] = [header 3 n ++ p] := by
  have data : opcodeOf (header 3 n ++ p) = opcodeData := by
    rw [opcodeOf_header]
    decide
  simp [dataSent, sentTo, data]

/-- Consulting the header is not noted. -/
theorem noteTurn_consult (client : Addr) (r : Listing) (loop : SendLoop) (effects : List Effect) :
    noteTurn client r (loop, examineOpcode ++ examineNumber ++ effects) =
      noteTurn client r (loop, effects) := rfl

theorem listTop_progress {r : Listing} {loop : SendLoop} {b : Nat} (client : Addr)
    (io : LocalIO) (live : loop.status = .sending)
    (number : loop.blockNumber = UInt16.ofNat (b + 1)) (bounded : b < 128)
    (sent : (b * 512 ≤ r.rendering.length ∧ r.sent = packets r.rendering b) ∨
      (b * 512 < r.rendering.length ∧ r.sent = packets r.rendering (b + 1))) :
    Progress (noteTurn client r (listTop client (some r.rendering) io loop))
      (listTop client (some r.rendering) io loop).1 := by
  have value : loop.blockNumber.toNat = b + 1 := by
    rw [number, UInt16.toNat_ofNat']
    exact Nat.mod_eq_of_lt (by omega)
  have pos : loop.blockNumber ≠ 0 := by
    intro zero
    rw [zero] at value
    cases value
  have read : readDataBlock (some r.rendering) loop.blockNumber = block r.rendering (b + 1) := by
    rw [readDataBlock_pos r.rendering pos, value]
  have nonempty := block_nonempty_iff r.rendering (b + 1)
  rw [Nat.add_sub_cancel] at nonempty
  by_cases tired : loop.retry = 0
  · refine Or.inr ⟨?_, ?_⟩
    · simp [listTop, sendTop, tired]
    · simp [noteTurn, listTop, sendTop, tired]
  · by_cases left : b * 512 < r.rendering.length
    · have some_bytes : (block r.rendering (b + 1)).length ≠ 0 :=
        fun h => nonempty.mpr left (List.length_eq_zero_iff.mp h)
      cases fails : io.sendFails with
      | true =>
        refine Or.inr ⟨?_, ?_⟩
        · simp [listTop, sendTop, tired, read, some_bytes, fails, listManner]
        · simp [noteTurn, listTop, sendTop, tired, read, some_bytes, fails, listManner]
      | false =>
        have top : listTop client (some r.rendering) io loop =
            ({ loop with dataSize := (block r.rendering (b + 1)).length },
              [.send client (header 3 loop.blockNumber ++ block r.rendering (b + 1))]) := by
          simp [listTop, sendTop, tired, read, some_bytes, fails, dataDatagram_eq]
        have noted : note r.sent (header 3 (UInt16.ofNat (b + 1)) ++ block r.rendering (b + 1)) =
            packets r.rendering (b + 1) := by
          rcases sent with ⟨_, before⟩ | ⟨_, again⟩
          · rw [before]
            exact note_next r.rendering (by omega)
          · rw [again]
            exact note_again r.rendering b
        rw [top]
        refine Or.inl ⟨b, live, by simp [noteTurn, live], number, bounded, left, rfl, ?_⟩
        simp only [noteTurn, dataSent_data, List.foldl_cons, List.foldl_nil, number]
        exact noted
    · have empty : block r.rendering (b + 1) = [] := not_not.mp fun h => left (nonempty.mp h)
      have top : listTop client (some r.rendering) io loop =
          ({ loop with dataSize := 0, status := .finished }, []) := by
        simp [listTop, sendTop, tired, read, empty]
      obtain ⟨reach, before⟩ := sent.resolve_right fun h => left h.1
      rw [top]
      refine Or.inr ⟨by simp, fun _ => ?_⟩
      change concatenation r.sent = r.rendering
      rw [before, concatenation_packets, List.take_of_length_le (Nat.le_of_not_lt left)]

theorem listStep_progress {r : Listing} {loop : SendLoop} {b : Nat} (waiting : Waiting r loop b)
    (client : Addr) (e : Recv) (io : LocalIO) :
    Progress (noteTurn client r (listStep client (some r.rendering) loop e io))
      (listStep client (some r.rendering) loop e io).1 := by
  obtain ⟨live, _, number, bounded, below, size, sent⟩ := waiting
  cases e with
  | timeout => exact listTop_progress client io live number bounded (Or.inr ⟨below, sent⟩)
  | datagram src d =>
    have cap : ¬ received 4 d > maxPacketSize :=
      Nat.not_lt.mpr (Nat.le_trans (received_le 4 d) (by decide))
    by_cases mismatch : ackOpcodeAt (loop.ackBuffer.fill d) ≠ 4 ∨
        ackBlockNumberAt (loop.ackBuffer.fill d) ≠ loop.blockNumber
    · have turn : listStep client (some r.rendering) loop (.datagram src d) io =
          let next := listTop client (some r.rendering) io
            { loop with ackBuffer := loop.ackBuffer.fill d, retry := maxRetry }
          (next.1, examineOpcode ++ examineNumber ++ next.2) := by
        simp only [listStep, listTop, sendStep, cap, mismatch, if_true, if_false, listManner,
          Bool.false_eq_true, List.append_nil]
      rw [turn, noteTurn_consult]
      exact listTop_progress client io live number bounded (Or.inr ⟨below, sent⟩)
    · have matched := (not_or.mp mismatch).2
      have notLast : b + 1 ≠ 128 := by
        intro last
        refine ackBlockNumberAt_ne (loop.ackBuffer.fill d) ?_
        rw [not_not.mp matched, number, last]
        rfl
      by_cases short : (block r.rendering (b + 1)).length < 512
      · have turn : listStep client (some r.rendering) loop (.datagram src d) io =
            ({ loop with
                ackBuffer := loop.ackBuffer.fill d
                retry := maxRetry
                status := .finished }, examineOpcode ++ examineNumber) := by
          simp only [listStep, sendStep, cap, mismatch, if_false, size, short, if_true]
        have reach := (block_short_iff r.rendering (Nat.le_add_left 1 b)).mp short
        rw [turn]
        refine Or.inr ⟨by simp, fun _ => ?_⟩
        change concatenation r.sent = r.rendering
        rw [sent, concatenation_packets, List.take_of_length_le (Nat.le_of_lt reach)]
      · have turn : listStep client (some r.rendering) loop (.datagram src d) io =
            let next := listTop client (some r.rendering) io
              { loop with
                ackBuffer := loop.ackBuffer.fill d
                retry := maxRetry
                blockNumber := loop.blockNumber + 1 }
            (next.1, examineOpcode ++ examineNumber ++ next.2) := by
          simp only [listStep, listTop, sendStep, cap, mismatch, if_false, size, short]
        have reach := (block_short_iff r.rendering (Nat.le_add_left 1 b)).not.mp short
        rw [turn, noteTurn_consult]
        refine listTop_progress client io live ?_ (by omega) (Or.inl ⟨by omega, sent⟩)
        rw [number]
        simp

/-- While the watched thread is in its loop, the file holds its rendering, which is the
map of one step. -/
structure Inv (i : Nat) (t : Traced) : Prop where
  held : Held t.state
  current : t.state.shared.files ∈ t.maps
  loop : ∀ client loop, t.state.handlers[i]? = some (.listing client loop) →
    (∃ b, Waiting t.listing loop b) ∧
      t.state.shared.disk.read (resolve lsPath) = some t.listing.rendering ∧
      ∃ files ∈ t.maps, listingOf files = t.listing.rendering
  snapshot : t.listing.completed = true →
    ∃ files ∈ t.maps, concatenation t.listing.sent = listingOf files

theorem start_inv (i : Nat) {s : State} (initial : Initial s) : Inv i (start s) := by
  constructor
  · constructor
    · exact initial.wellFormed
    · intro h mem
      simp only [start, initial.idle] at mem
      cases mem
  · exact List.mem_singleton.mpr rfl
  · intro client loop entry
    simp only [start, initial.idle] at entry
    cases entry
  · intro completed
    cases completed

/-- A step that notes nothing of the watched thread and leaves its file as it was. -/
theorem Inv.apart {i : Nat} {t : Traced} (inv : Inv i t) (a : Action)
    (unnoted : watch i t.listing t.state a = t.listing)
    (same : ∀ client loop,
      (Server.step t.state a).handlers[i]? = some (.listing client loop) →
      t.state.handlers[i]? = some (.listing client loop) ∧
        (t.state.shared.disk.read (resolve lsPath) = some t.listing.rendering →
          (Server.step t.state a).shared.disk.read (resolve lsPath) =
            some t.listing.rendering)) :
    Inv i ((traced i).step t a) := by
  constructor
  · exact step_held inv.held a
  · exact List.mem_append_right _ (List.mem_singleton.mpr rfl)
  · intro client loop entry
    obtain ⟨before, kept⟩ := same client loop entry
    obtain ⟨waiting, read, files, mem, rendered⟩ := inv.loop client loop before
    simp only [traced, unnoted]
    exact ⟨waiting, kept read, files, List.mem_append_left _ mem, rendered⟩
  · intro completed
    simp only [traced, unnoted] at completed ⊢
    obtain ⟨files, mem, rendered⟩ := inv.snapshot completed
    exact ⟨files, List.mem_append_left _ mem, rendered⟩

/-- A step of the watched thread. -/
theorem Inv.own {i : Nat} {t : Traced} (inv : Inv i t) (a : Action) (client : Addr)
    {r : Listing} {loop : SendLoop} (noted : watch i t.listing t.state a = r)
    (entry : (Server.step t.state a).handlers[i]? =
      some (if loop.status = .sending then .listing client loop else .done))
    (progress : Progress r loop)
    (read : (Server.step t.state a).shared.disk.read (resolve lsPath) = some r.rendering)
    (rendered : ∃ files ∈ t.maps, listingOf files = r.rendering) :
    Inv i ((traced i).step t a) := by
  obtain ⟨files, mem, rendered⟩ := rendered
  constructor
  · exact step_held inv.held a
  · exact List.mem_append_right _ (List.mem_singleton.mpr rfl)
  · intro client' loop' entry'
    simp only [traced, noted] at entry' ⊢
    rw [entry] at entry'
    split_ifs at entry' with live
    · cases entry'
      have waiting := progress.resolve_right fun stopped => stopped.1 live
      exact ⟨waiting, read, files, List.mem_append_left _ mem, rendered⟩
    · cases entry'
  · intro completed
    simp only [traced, noted] at completed ⊢
    refine ⟨files, List.mem_append_left _ mem, ?_⟩
    rcases progress with ⟨b, waiting⟩ | ⟨_, whole⟩
    · rw [waiting.unfinished] at completed
      cases completed
    · rw [rendered]
      exact whole completed

/-- The listing thread at its first receive call. -/
theorem begin_list {shared : Shared} {client : Addr} {ackBuffer : Buffer 4} {env : Environment}
    (opens : openWrite shared env lsPath ≠ none) :
    (begin shared client ackBuffer env .list).handler =
      let loop := (listTop client (contentAt (begin shared client ackBuffer env .list).shared env
        lsPath) env.io (.start ackBuffer)).1
      if loop.status = .sending then .listing client loop else .done := by
  cases opened : openWrite shared env lsPath with
  | none => exact absurd opened opens
  | some held => simp only [begin, handleLSRequest, opened, afterList]

theorem begin_noListing {shared : Shared} {r : Request} (other : r ≠ .list) (client : Addr)
    (ackBuffer : Buffer 4) (env : Environment) (client' : Addr) (loop : SendLoop) :
    (begin shared client ackBuffer env r).handler ≠ .listing client' loop := by
  cases r with
  | read filename =>
    simp only [begin, handleReadRequest, afterRead]
    split_ifs <;> simp
  | write filename =>
    simp only [begin, handleWriteRequest]
    split_ifs
    · simp
    · cases openWrite shared env (filePath filename) <;> simp
  | delete filename =>
    simp only [begin, handleDeleteRequest, refuse]
    split_ifs <;> simp
  | list => exact absurd rfl other

theorem advance_noListing {h : Handler} (other : ∀ client loop, h ≠ .listing client loop)
    (shared : Shared) (e : Recv) (env : Environment) (client : Addr) (loop : SendLoop) :
    (advance shared e env h).handler ≠ .listing client loop := by
  cases h with
  | reading filename client loop =>
    simp only [advance, readTurn, afterRead]
    split_ifs <;> simp
  | writing filename client inode loop =>
    simp only [advance, writeTurn]
    split <;> simp
  | listing client loop => exact absurd rfl (other client loop)
  | done => simp [advance]
  | undefined => simp [advance]

theorem request_inv {i : Nat} {t : Traced} (inv : Inv i t) {r : Request} {client : Addr}
    {ackBuffer : Buffer 4} {env : Environment}
    (undisturbed : Undisturbed i t (.request r client ackBuffer env)) :
    Inv i ((traced i).step t (.request r client ackBuffer env)) := by
  simp only [Undisturbed] at undisturbed
  by_cases own : t.state.handlers.length = i
  · rw [if_pos own] at undisturbed
    have entry : (Server.step t.state (.request r client ackBuffer env)).handlers[i]? =
        some (begin t.state.shared client ackBuffer env r).handler := by
      rw [← own]
      exact List.getElem?_concat_length
    by_cases listing : r = .list
    · subst listing
      obtain ⟨stored, reads⟩ := undisturbed rfl
      by_cases opens : openWrite t.state.shared env lsPath = none
      · refine inv.apart _ (if_neg fun which => which.2 opens) ?_
        intro client' loop there
        rw [entry] at there
        simp only [begin, handleLSRequest, opens] at there
        cases there
      · have read := list_renders client ackBuffer opens stored
        have content : contentAt (begin t.state.shared client ackBuffer env .list).shared env
            lsPath = some (listingOf t.state.shared.files) := by
          simp only [contentAt, reads, Bool.false_eq_true, if_false, read]
        have progress := listTop_progress (r := ⟨listingOf t.state.shared.files, [], false⟩)
          client env.io (show (SendLoop.start ackBuffer).status = .sending from rfl) rfl
          (by decide) (Or.inl ⟨Nat.zero_le _, rfl⟩)
        refine inv.own _ client ?_ ?_ progress read ⟨_, inv.current, rfl⟩
        · simp only [watch, own, opens, turnOf, content, ne_eq, not_false_eq_true, and_self,
            if_true]
        · rw [entry, begin_list opens, content]
    · refine inv.apart _ ?_ ?_
      · cases r with
        | list => exact absurd rfl listing
        | _ => rfl
      · intro client' loop there
        rw [entry] at there
        exact absurd (Option.some.inj there) (begin_noListing listing _ _ _ _ _)
  · rw [if_neg own] at undisturbed
    refine inv.apart _ ?_ ?_
    · cases r with
      | list => exact if_neg fun which => own which.1
      | _ => rfl
    · intro client' loop there
      obtain ⟨_, before⟩ := (Immutability.replaces_append _ _ i _ there).resolve_right
        fun new => own new.1.symm
      refine ⟨before, fun read => ?_⟩
      exact request_keeps_file inv.held (undisturbed ⟨client', loop, before⟩) read

theorem turn_inv {i j : Nat} {t : Traced} (inv : Inv i t) {e : Recv} {env : Environment}
    (enabled : Enabled t.state (.turn j e env)) (undisturbed : Undisturbed i t (.turn j e env)) :
    Inv i ((traced i).step t (.turn j e env)) := by
  obtain ⟨_, h, entry, _⟩ := enabled
  have current := current_handler entry
  obtain ⟨bound, _⟩ := List.getElem?_eq_some_iff.mp entry
  by_cases own : j = i
  · subst own
    have after : (Server.step t.state (.turn j e env)).handlers[j]? =
        some (advance t.state.shared e env h).handler := by
      simp only [Server.step, turnOf, current]
      exact List.getElem?_set_self bound
    by_cases listing : ∃ client loop, h = .listing client loop
    · obtain ⟨client, loop, rfl⟩ := listing
      obtain ⟨⟨b, waiting⟩, read, rendered⟩ := inv.loop client loop entry
      have reads : env.readFails = false := by
        simpa [Undisturbed] using undisturbed ⟨client, loop, entry⟩
      have content : contentAt t.state.shared env lsPath = some t.listing.rendering := by
        simp only [contentAt, reads, Bool.false_eq_true, if_false, read]
      have progress := listStep_progress waiting client e env.io
      rw [← content] at progress
      refine inv.own _ client ?_ ?_ progress ?_ rendered
      · simp only [watch, current, if_true]
      · exact after
      · simp only [Server.step, turnOf, current, advance, listTurn, afterList]
        exact read
    · refine inv.apart _ ?_ ?_
      · simp only [watch, current]
        cases h with
        | listing client loop => exact absurd ⟨client, loop, rfl⟩ listing
        | _ => rfl
      · intro client' loop there
        rw [after] at there
        exact absurd (Option.some.inj there)
          (advance_noListing (fun client loop same => listing ⟨client, loop, same⟩) _ _ _ _ _)
  · refine inv.apart _ ?_ ?_
    · simp only [watch, if_neg own]
      split <;> rfl
    · intro client' loop there
      have before : t.state.handlers[i]? = some (.listing client' loop) := by
        simp only [Server.step, List.getElem?_set_ne own] at there
        exact there
      have kept := undisturbed ⟨client', loop, before⟩
      rw [if_neg own] at kept
      exact ⟨before, fun read => (turn_keeps_file inv.held kept).trans read⟩

theorem step_inv (i : Nat) (t : Traced) (a : Action)
    (enabled : ((traced i).restrict (Undisturbed i)).enabled t a) (inv : Inv i t) :
    Inv i (((traced i).restrict (Undisturbed i)).step t a) := by
  obtain ⟨enabled, undisturbed⟩ := enabled
  cases a with
  | request r client ackBuffer env => exact request_inv inv undisturbed
  | turn j e env => exact turn_inv inv enabled undisturbed

open Immutability (writer rival)

/-- Two files whose lines fill more than a block. -/
def twoFiles : Traced :=
  (traced 1).step ((traced 1).step (start (startedWith (List.replicate 250 97) [7]))
      (.request (.write (List.replicate 250 98)) writer (Buffer.zero 4) .ok))
    (.turn 0 (.datagram writer [0, 3, 0, 1, 8]) .ok)

/-- The two blocks of a listing; between them a reader starts. -/
def twoBlocks : Traced :=
  (traced 1).step ((traced 1).step ((traced 1).step ((traced 1).step twoFiles
      (.request .list writer (Buffer.zero 4) .ok))
      (.request (.read (List.replicate 250 97)) rival (Buffer.zero 4) .ok))
      (.turn 1 (.datagram writer [0, 4, 0, 1]) .ok))
    (.turn 1 (.datagram writer [0, 4, 0, 2]) .ok)

/-- While the thread of the first listing waits for its first acknowledgement, one of the
files is deleted and listed again. -/
def twoListings : Traced :=
  (traced 1).step ((traced 1).step ((traced 1).step ((traced 1).step twoFiles
      (.request .list writer (Buffer.zero 4) .ok))
      (.request (.delete (List.replicate 250 97)) rival (Buffer.zero 4) .ok))
      (.request .list rival (Buffer.zero 4) .ok))
    (.turn 1 (.datagram writer [0, 4, 0, 1]) .ok)

end TFTP.ListingSnapshot
