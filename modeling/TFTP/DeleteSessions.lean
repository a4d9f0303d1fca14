import TFTP.ClientLoops
import TFTP.ReaderCounts
import TFTP.RequestGrammar

/-!
# Client operations one after the other

Every client process binds the same port, so what is left over from one operation can
arrive in the next. The network keeps every datagram and delivers it any number of times,
at any time, or never. A datagram is marked with the operation it was sent for; the parties
do not see the mark.
-/

namespace TFTP.DeleteSessions

open Octets Packet Sockets FileSystem Runs Server Requests
open RequestGrammar (Named opcodeOf_eq_iff)

structure Datagram where
  src : Addr
  dst : Addr
  bytes : List UInt8
  operation : Nat
  deriving DecidableEq

def listening : Addr := ⟨0x7F000001, 69⟩

/-- Where every client process binds its socket. -/
def clientAddress : Addr := ⟨0x7F000001, 9799⟩

/-- Where a thread binds its socket: `htons(clientId)`. -/
def threadAddress (clientId : Nat) : Addr := ⟨0x7F000001, UInt16.ofNat clientId⟩

def recvOf : Option Datagram → Recv
  | none => .timeout
  | some d => .datagram d.src d.bytes

def outgoing (src : Addr) (operation : Nat) (effects : List Effect) : List Datagram :=
  effects.filterMap fun
    | .send dst p => some ⟨src, dst, p, operation⟩
    | _ => none

inductive Operation where
  | read (prevFilename : Name)
  | write (prevFilename : Name)
  | delete (filename : Name)
  | list

/-- How the calls before the loop end, what the compressed file holds, and what memory
holds that nobody has assigned. -/
structure Opening where
  sendFails : Bool
  opens : Bool
  file : List UInt8
  member : Addr
  recievedBuffer : RecvBuffer

inductive Process where
  | ended
  | reading (member : Addr) (loop : Client.ReadLoop)
  | writing (file : List UInt8) (loop : Client.WriteLoop)
  | listing (loop : Client.ListLoop)
  | deleting (filename : Name) (loop : Client.DeleteLoop)

def Process.running : Process → Bool
  | .ended => false
  | .reading _ loop => loop.status = .receiving
  | .writing _ loop => loop.status = .sending
  | .listing loop => loop.status = .receiving
  | .deleting _ loop => loop.status = .waiting

/-- Nothing is promised of what the process does, nor that another one follows. -/
def Process.undefined : Process → Bool
  | .ended => false
  | .reading _ loop => loop.status = .undefined
  | .writing _ loop => loop.status = .undefined
  | .listing loop => loop.status = .undefined
  | .deleting _ loop => loop.status = .undefined

/-- The request goes out before the file is opened. -/
def send (o : Opening) (r : Request) (complainTo : Addr) (p : Process) : Process × List Effect :=
  if o.sendFails then (.ended, [])
  else if o.opens then (p, [.send listening (requestDatagram r)])
  else
    (.ended, [.send listening (requestDatagram r),
      sendError complainTo errorDiskFull "Disk full or allocation exceeded."])

/-- `startClient`, up to the first receive call. -/
def startClient (o : Opening) : Operation → Process × List Effect
  | .read prevFilename =>
    if prevFilename = [] then (.ended, [])
    else
      send o (.read (compressedName prevFilename)) o.member
        (.reading o.member (.start listening))
  | .write prevFilename =>
    if prevFilename = [] then (.ended, [])
    else
      send o (.write (compressedName prevFilename)) o.member
        (.writing o.file (.start listening))
  | .delete filename =>
    if filename = [] then (.ended, [])
    else if o.sendFails then (.ended, [])
    else
      (.deleting filename (.start o.recievedBuffer),
        [.send listening (requestDatagram (.delete filename))])
  | .list => send o .list listening (.listing (.start o.recievedBuffer))

def Process.react (e : Recv) (io : LocalIO) : Process → Process × List Effect
  | .ended => (.ended, [])
  | .reading member loop =>
    let turn := Client.readStep member loop e io
    (.reading member turn.1, turn.2)
  | .writing file loop =>
    let turn := Client.writeStep (some file) loop e io
    (.writing file turn.1, turn.2)
  | .listing loop =>
    let turn := Client.listStep listening loop e io
    (.listing turn.1, turn.2)
  | .deleting filename loop =>
    let turn := Client.deleteStep listening loop e
    (.deleting filename turn.1, turn.2)

/-- A thread's number, and the operation it was started for. -/
structure Thread where
  clientId : Nat
  operation : Nat
  deriving DecidableEq

/-- `threads` goes along with the server's handlers; `removed` tells which names were
removed while an operation's request was served. -/
structure System where
  server : State
  nextClientId : Nat
  threads : List Thread
  client : Process
  operation : Nat
  network : List Datagram
  removed : Nat → Name → Prop

/-- No datagram stands for a timeout. -/
inductive Action where
  | start (op : Operation) (o : Opening)
  | client (d : Option Datagram) (io : LocalIO)
  | listen (d : Datagram) (ackBuffer : Buffer 4) (env : Environment)
  | thread (i : Nat) (d : Option Datagram) (env : Environment)

/-- The name leaves the map and the disk. -/
structure Removes (before after : Shared) (filename : Name) : Prop where
  listed : filename ∈ before.files
  present : before.disk.entries (resolve (filePath filename)) ≠ none
  unlisted : filename ∉ after.files
  gone : after.disk.entries (resolve (filePath filename)) = none

def start (s : State) : System := ⟨s, 1, [], .ended, 0, [], fun _ _ => False⟩

def Enabled (t : System) : Action → Prop
  | .start _ _ => t.client.running = false ∧ t.client.undefined = false
  | .client d _ => t.client.running = true ∧ ∀ m, d = some m → m ∈ t.network ∧ m.dst = clientAddress
  | .listen d _ _ => .undefined ∉ t.server.handlers ∧ d ∈ t.network ∧ d.dst = listening
  | .thread i d env => Server.Enabled t.server (.turn i (recvOf d) env) ∧
      ∀ m, d = some m → m ∈ t.network ∧
        ∃ thread, t.threads[i]? = some thread ∧ m.dst = threadAddress thread.clientId

/-- The listening socket answers by itself. -/
def refuseRequest (t : System) (d : Datagram) : System :=
  { t with
    network := t.network ++ outgoing listening d.operation
      [sendError d.src errorIllegalTftpOperation "Illegal TFTP operation"] }

def step (t : System) : Action → System
  | .start op o =>
    { t with
      client := (startClient o op).1
      operation := t.operation + 1
      network := t.network ++ outgoing clientAddress (t.operation + 1) (startClient o op).2 }
  | .client d io =>
    let turn := t.client.react (recvOf d) io
    { t with
      client := turn.1
      network := t.network ++ outgoing clientAddress t.operation turn.2 }
  | .listen d ackBuffer env =>
    match heard d.bytes with
    | .starts r =>
      let a : Server.Action := .request r d.src ackBuffer env
      let clientId := 9800 + t.nextClientId
      { t with
        server := Server.step t.server a
        nextClientId := t.nextClientId + 1
        threads := t.threads ++ [⟨clientId, d.operation⟩]
        network := t.network ++ outgoing (threadAddress clientId) d.operation
          (turnOf t.server a).effects
        removed := fun n f => t.removed n f ∨ (n = d.operation ∧ r = .delete f ∧
          Removes t.server.shared (Server.step t.server a).shared f) }
    | .wrongMode => refuseRequest { t with nextClientId := t.nextClientId + 1 } d
    | .refused => refuseRequest t d
    | .overread => t
  | .thread i d env =>
    match t.threads[i]? with
    | none => t
    | some thread =>
      let a : Server.Action := .turn i (recvOf d) env
      { t with
        server := Server.step t.server a
        network := t.network ++ outgoing (threadAddress thread.clientId) thread.operation
          (turnOf t.server a).effects }

def machine : Machine System Action := ⟨Enabled, step⟩

/-- What reads as ACK 0 reaches a waiting DELETE only if it was sent for it, or when its
file is gone already. -/
def Fresh (t : System) : Action → Prop
  | .client (some d) _ =>
    match t.client with
    | .deleting filename loop =>
      opcodeAt (loop.recievedBuffer.fill d.bytes) = opcodeAck →
        recvBlockNumberAt (loop.recievedBuffer.fill d.bytes) = ackOk →
          d.operation = t.operation ∨ t.removed t.operation filename
    | _ => True
  | _ => True

theorem mem_outgoing {src : Addr} {operation : Nat} {effects : List Effect} {d : Datagram} :
    d ∈ outgoing src operation effects ↔
      ∃ dst p, .send dst p ∈ effects ∧ d = ⟨src, dst, p, operation⟩ := by
  rw [outgoing, List.mem_filterMap]
  constructor
  · rintro ⟨e, mem, sent⟩
    cases e with
    | send dst p => exact ⟨dst, p, mem, (Option.some.inj sent).symm⟩
    | _ => cases sent
  · rintro ⟨dst, p, mem, rfl⟩
    exact ⟨_, mem, rfl⟩

theorem outgoing_operation {src : Addr} {operation : Nat} {effects : List Effect} {d : Datagram}
    (mem : d ∈ outgoing src operation effects) : d.operation = operation := by
  obtain ⟨_, _, _, rfl⟩ := mem_outgoing.mp mem
  rfl

/-- The request, a complaint, or the acknowledgement of what is done. -/
def Belongs (done : Prop) (filename : Name) (p : List UInt8) : Prop :=
  p = requestDatagram (.delete filename) ∨ Complaint p ∨ (p = ackDatagram ackOk ∧ done)

theorem Belongs.imp {done done' : Prop} {filename : Name} {p : List UInt8}
    (belongs : Belongs done filename p) (more : done → done') : Belongs done' filename p :=
  belongs.imp_right fun rest => rest.imp_right fun ack => ⟨ack.1, more ack.2⟩

/-- Only the acknowledgement reads as one. -/
theorem Belongs.ack {done : Prop} {filename : Name} {p : List UInt8}
    (belongs : Belongs done filename p) (buffer : RecvBuffer)
    (ack : opcodeAt (buffer.fill p) = opcodeAck) : done := by
  rcases belongs with rfl | complaint | ⟨_, done⟩
  · have opcode : [0, 6] <+: requestDatagram (.delete filename) :=
      ⟨_, (Named.delete.datagram_fields filename).symm⟩
    rw [opcodeAt_fill _ opcode.length_le, (opcodeOf_eq_iff (by decide)).mpr opcode] at ack
    exact absurd ack (by decide)
  · obtain ⟨sized, opcode⟩ := complaint_reads complaint
    rw [opcodeAt_fill _ sized, opcode] at ack
    exact absurd ack (by decide)
  · exact done

/-- Only the request starts a thread, and it starts the deletion. -/
theorem Belongs.starts {done : Prop} {filename : Name} {p : List UInt8} {r : Request}
    (belongs : Belongs done filename p) (starts : heard p = .starts r) : r = .delete filename := by
  rcases belongs with rfl | complaint | ⟨rfl, _⟩
  · exact (Named.delete.hears_own.mp starts).2.2
  · obtain ⟨_, opcode⟩ := complaint_reads complaint
    rw [heard_other (by rw [opcode]; decide)] at starts
    cases starts
  · rw [heard_other (by rw [opcodeOf_ack]; decide)] at starts
    cases starts

/-- A deletion answers once and is over; its acknowledgement tells that the name is gone. -/
theorem delete_answers (shared : Shared) (filename : Name) (client : Addr) (env : Environment) :
    (handleDeleteRequest shared filename client env).handler = .done ∧
      ∀ dst p, .send dst p ∈ (handleDeleteRequest shared filename client env).effects →
        Complaint p ∨ (p = ackDatagram ackOk ∧
          Removes shared (handleDeleteRequest shared filename client env).shared filename) := by
  have refused : ∀ {accesses a code msg}, (refuse shared accesses (sendError a code msg)).handler =
      .done ∧ ∀ dst p, .send dst p ∈ (refuse shared accesses (sendError a code msg)).effects →
        Complaint p ∨ (p = ackDatagram ackOk ∧
          Removes shared (refuse shared accesses (sendError a code msg)).shared filename) :=
    fun {accesses a code msg} => ⟨rfl, fun dst p sent =>
      Or.inl (sendError_complaint (List.mem_singleton.mp sent))⟩
  unfold handleDeleteRequest
  split_ifs with listed free throws absent throws'
  · exact refused
  · exact refused
  · exact refused
  · refine ⟨rfl, fun dst p sent => Or.inr ?_⟩
    have answer : Effect.send dst p = sendACK client ackOk := List.mem_singleton.mp sent
    simp only [sendACK, Effect.send.injEq] at answer
    refine ⟨answer.2, ?_⟩
    constructor
    · exact fileExists_iff.mp listed
    · simpa using absent
    · exact fun mem => (Std.TreeMap.mem_erase.mp mem).1 Std.ReflCmp.compare_self
    · exact Disk.remove_entries_self _ _
  · exact refused
  · exact refused

/-- What there is of the operation that is under way, a deletion. -/
structure Deleting (t : System) (filename : Name) (loop : Client.DeleteLoop) : Prop where
  packets : ∀ d ∈ t.network, d.operation = t.operation →
    Belongs (t.removed t.operation filename) filename d.bytes
  threads : ∀ (i : Nat) thread, t.threads[i]? = some thread →
    thread.operation = t.operation → t.server.handlers[i]? = some .done
  outcome : loop.status = .deleted → t.removed t.operation filename

structure Inv (t : System) : Prop where
  parallel : t.threads.length = t.server.handlers.length
  served : ∀ thread ∈ t.threads, thread.operation ≤ t.operation
  sent : ∀ d ∈ t.network, d.operation ≤ t.operation
  current : ∀ filename loop, t.client = .deleting filename loop → Deleting t filename loop

theorem start_inv {s : State} (idle : s.handlers = []) : Inv (start s) := by
  constructor
  · rw [start, idle]
    rfl
  · exact fun thread mem => absurd mem List.not_mem_nil
  · exact fun d mem => absurd mem List.not_mem_nil
  · intro filename loop client
    cases client

/-- A deletion sends its request and waits. -/
theorem startClient_deleting {o : Opening} {op : Operation} {filename : Name}
    {loop : Client.DeleteLoop} (client : (startClient o op).1 = .deleting filename loop) :
    loop.status = .waiting ∧
      (startClient o op).2 = [.send listening (requestDatagram (.delete filename))] := by
  cases op with
  | read prevFilename =>
    simp only [startClient, send] at client
    split_ifs at client
  | write prevFilename =>
    simp only [startClient, send] at client
    split_ifs at client
  | delete f =>
    simp only [startClient] at client ⊢
    split_ifs at client ⊢
    cases client
    exact ⟨rfl, rfl⟩
  | list =>
    simp only [startClient, send] at client
    split_ifs at client

theorem start_step_inv {t : System} (inv : Inv t) (op : Operation) (o : Opening) :
    Inv (step t (.start op o)) := by
  constructor
  · exact inv.parallel
  · exact fun thread mem => Nat.le_succ_of_le (inv.served thread mem)
  · intro d mem
    rcases List.mem_append.mp mem with old | new
    · exact Nat.le_succ_of_le (inv.sent d old)
    · exact Nat.le_of_eq (outgoing_operation new)
  · intro filename loop client
    obtain ⟨waiting, request⟩ := startClient_deleting client
    constructor
    · intro d mem own
      rcases List.mem_append.mp mem with old | new
      · have earlier := inv.sent d old
        simp only [step] at own
        omega
      · rw [request] at new
        obtain ⟨dst, p, sent, rfl⟩ := mem_outgoing.mp new
        have packet := List.mem_singleton.mp sent
        exact Or.inl (Effect.send.inj packet).2
    · intro i thread entry own
      have earlier := inv.served thread (List.mem_of_getElem? entry)
      simp only [step] at own
      omega
    · intro deleted
      rw [waiting] at deleted
      cases deleted

theorem client_inv {t : System} (inv : Inv t) {d : Option Datagram} {io : LocalIO}
    (enabled : Enabled t (.client d io)) (fresh : Fresh t (.client d io)) :
    Inv (step t (.client d io)) := by
  constructor
  · exact inv.parallel
  · exact inv.served
  · intro m mem
    rcases List.mem_append.mp mem with old | new
    · exact inv.sent m old
    · exact Nat.le_of_eq (outgoing_operation new)
  · intro filename loop' client'
    cases client : t.client with
    | deleting f loop =>
      simp only [step, client, Process.react] at client'
      obtain ⟨rfl, rfl⟩ := Process.deleting.inj client'
      have before := inv.current f loop client
      constructor
      · intro m mem own
        rcases List.mem_append.mp mem with old | new
        · exact before.packets m old own
        · simp only [client, Process.react] at new
          obtain ⟨dst, p, sent, rfl⟩ := mem_outgoing.mp new
          exact Or.inr (Or.inl (Client.deleteStep_sends listening loop _ sent))
      · exact before.threads
      · intro deleted
        have waiting : loop.status = .waiting := by
          have running := enabled.1
          rw [client] at running
          exact of_decide_eq_true running
        obtain ⟨src, bytes, received, _, ack, number⟩ := Client.deleteStep_deleted waiting deleted
        cases d with
        | none => cases received
        | some m =>
          obtain ⟨rfl, rfl⟩ := Recv.datagram.inj received
          simp only [Fresh, client] at fresh
          rcases fresh ack number with own | done
          · exact (before.packets m (enabled.2 m rfl).1 own).ack _ ack
          · exact done
    | _ =>
      simp only [step, client, Process.react] at client'
      cases client'

theorem refused_inv {t : System} (inv : Inv t) {d : Datagram} (known : d ∈ t.network) :
    Inv (refuseRequest t d) := by
  constructor
  · exact inv.parallel
  · exact inv.served
  · intro m mem
    rcases List.mem_append.mp mem with old | new
    · exact inv.sent m old
    · exact (outgoing_operation new).trans_le (inv.sent d known)
  · intro filename loop client
    have before := inv.current filename loop client
    constructor
    · intro m mem own
      rcases List.mem_append.mp mem with old | new
      · exact before.packets m old own
      · obtain ⟨dst, p, sent, rfl⟩ := mem_outgoing.mp new
        exact Or.inr (Or.inl (sendError_complaint (List.mem_singleton.mp sent)))
    · exact before.threads
    · exact before.outcome

theorem listen_inv {t : System} (inv : Inv t) {d : Datagram} (ackBuffer : Buffer 4)
    (env : Environment) (known : d ∈ t.network) : Inv (step t (.listen d ackBuffer env)) := by
  cases hears : heard d.bytes with
  | wrongMode =>
    simp only [step, hears]
    -- the number that is given away is not part of the invariant
    have numbered : Inv { t with nextClientId := t.nextClientId + 1 } :=
      ⟨inv.parallel, inv.served, inv.sent, fun filename loop client =>
        have before := inv.current filename loop client
        ⟨before.packets, before.threads, before.outcome⟩⟩
    exact refused_inv numbered known
  | refused =>
    simp only [step, hears]
    exact refused_inv inv known
  | overread =>
    simp only [step, hears]
    exact inv
  | starts r =>
    simp only [step, hears]
    constructor
    · simp only [Server.step, List.length_append, List.length_singleton, inv.parallel]
    · intro thread mem
      rcases List.mem_append.mp mem with old | new
      · exact inv.served thread old
      · rw [List.mem_singleton.mp new]
        exact inv.sent d known
    · intro m mem
      rcases List.mem_append.mp mem with old | new
      · exact inv.sent m old
      · exact (outgoing_operation new).trans_le (inv.sent d known)
    · intro filename loop client
      have before := inv.current filename loop client
      have request : d.operation = t.operation → r = .delete filename :=
        fun own => (before.packets d known own).starts hears
      constructor
      · intro m mem own
        rcases List.mem_append.mp mem with old | new
        · exact (before.packets m old own).imp Or.inl
        · have same := (outgoing_operation new).symm.trans own
          obtain rfl := request same
          obtain ⟨dst, p, sent, rfl⟩ := mem_outgoing.mp new
          rcases (delete_answers t.server.shared filename d.src env).2 dst p sent with
            complaint | ⟨ack, removes⟩
          · exact Or.inr (Or.inl complaint)
          · exact Or.inr (Or.inr ⟨ack, Or.inr ⟨same.symm, rfl, removes⟩⟩)
      · intro i thread entry own
        by_cases here : i < t.threads.length
        · rw [List.getElem?_append_left here] at entry
          have done := before.threads i thread entry own
          simp only [Server.step]
          rw [List.getElem?_append_left (inv.parallel ▸ here)]
          exact done
        · have behind := Nat.le_of_not_lt here
          rw [List.getElem?_append_right behind, List.getElem?_singleton] at entry
          split_ifs at entry with last
          obtain rfl := Option.some.inj entry
          obtain rfl := request own
          simp only [Server.step, turnOf, begin]
          rw [List.getElem?_append_right (inv.parallel ▸ behind), List.getElem?_singleton,
            if_pos (inv.parallel ▸ last),
            (delete_answers t.server.shared filename d.src env).1]
      · exact fun deleted => Or.inl (before.outcome deleted)

theorem thread_inv {t : System} (inv : Inv t) {i : Nat} {d : Option Datagram} {env : Environment}
    (enabled : Enabled t (.thread i d env)) : Inv (step t (.thread i d env)) := by
  obtain ⟨⟨_, h, entry, active⟩, _⟩ := enabled
  cases serves : t.threads[i]? with
  | none =>
    simp only [step, serves]
    exact inv
  | some thread =>
    have mem_threads : thread ∈ t.threads := List.mem_of_getElem? serves
    simp only [step, serves]
    constructor
    · simp only [Server.step, List.length_set]
      exact inv.parallel
    · exact inv.served
    · intro m mem
      rcases List.mem_append.mp mem with old | new
      · exact inv.sent m old
      · exact (outgoing_operation new).trans_le (inv.served thread mem_threads)
    · intro filename loop client
      have before := inv.current filename loop client
      -- the threads of a deletion have ended, so this one serves another operation
      have ended : ∀ other, t.threads[i]? = some other → other.operation ≠ t.operation := by
        intro other same own
        have done := before.threads i other same own
        rw [entry] at done
        cases done
        cases active
      constructor
      · intro m mem own
        rcases List.mem_append.mp mem with old | new
        · exact before.packets m old own
        · exact absurd ((outgoing_operation new).symm.trans own) (ended thread serves)
      · intro j other same own
        have apart : i ≠ j := fun here => ended other (here ▸ same) own
        simp only [Server.step, List.getElem?_set_ne apart]
        exact before.threads j other same own
      · exact before.outcome

theorem step_inv (t : System) (a : Action) (enabled : (machine.restrict Fresh).enabled t a)
    (inv : Inv t) : Inv ((machine.restrict Fresh).step t a) := by
  obtain ⟨enabled, fresh⟩ := enabled
  cases a with
  | start op o => exact start_step_inv inv op o
  | client d io => exact client_inv inv enabled fresh
  | listen d ackBuffer env => exact listen_inv inv ackBuffer env enabled.2.1
  | thread i d env => exact thread_inv inv enabled

/-- A deletion reported as successful was carried out while its own request was served. -/
theorem deleted_was_removed {s : State} {acts : List Action} {t : System} (initial : Initial s)
    (run : Run (machine.restrict Fresh) (start s) acts t) {filename : Name}
    {loop : Client.DeleteLoop} (client : t.client = .deleting filename loop)
    (deleted : loop.status = .deleted) : t.removed t.operation filename := by
  have inv : Inv t := run.invariant step_inv (start_inv initial.idle)
  exact (inv.current filename loop client).outcome deleted

/-- A file `f` on the server, and calls that succeed. -/
def opening : Opening := ⟨false, true, [8], ⟨0, 0⟩, Buffer.zero 516⟩

def asked : System :=
  machine.step (start (startedWith (text "f") [7])) (.start (.delete (text "f")) opening)

def served : System :=
  machine.step asked (.listen ⟨clientAddress, listening, requestDatagram (.delete (text "f")), 1⟩
    (Buffer.zero 4) .ok)

def answered : System :=
  machine.step served (.client (some ⟨threadAddress 9801, clientAddress, ackDatagram 0, 1⟩) .ok)

theorem deleted_was_removed_one_file : answered.removed 1 (text "f") := by
  have run : Run (machine.restrict Fresh) (start (startedWith (text "f") [7]))
      ([] ++ [.start (.delete (text "f")) opening] ++
        [.listen ⟨clientAddress, listening, requestDatagram (.delete (text "f")), 1⟩
          (Buffer.zero 4) .ok] ++
        [.client (some ⟨threadAddress 9801, clientAddress, ackDatagram 0, 1⟩) .ok]) answered := by
    refine .snoc (.snoc (.snoc (.refl _) ⟨⟨rfl, rfl⟩, trivial⟩)
      ⟨⟨by decide, by decide, rfl⟩, trivial⟩) ⟨⟨rfl, ?_⟩, ?_⟩
    · intro m same
      obtain rfl := Option.some.inj same
      decide
    · exact fun _ _ => Or.inl rfl
  exact deleted_was_removed (startedWith_initial (by decide) [7]) run rfl (by decide)

/-- An upload of `g` that succeeds, and then a deletion of `f`, whose request is still on
its way. -/
def uploaded : System :=
  let request : Datagram :=
    ⟨clientAddress, listening, requestDatagram (.write (compressedName (text "g"))), 1⟩
  let begun :=
    machine.step (start (startedWith (text "f") [7])) (.start (.write (text "g")) opening)
  let accepted := machine.step begun (.listen request (Buffer.zero 4) .ok)
  let done := machine.step accepted
    (.client (some ⟨threadAddress 9801, clientAddress, ackDatagram 0, 1⟩) .ok)
  machine.step done (.start (.delete (text "f")) opening)

/-- The acknowledgement that opened the upload comes a second time. -/
def confused : System :=
  machine.step uploaded (.client (some ⟨threadAddress 9801, clientAddress, ackDatagram 0, 1⟩) .ok)

theorem old_ack_reported :
    ¬ ∀ (s : State) (acts : List Action) (t : System) (filename : Name)
        (loop : Client.DeleteLoop), Initial s → Run machine (start s) acts t →
      t.client = .deleting filename loop → loop.status = .deleted →
      t.removed t.operation filename := by
  intro reported
  have run : ∃ acts, Run machine (start (startedWith (text "f") [7])) acts confused := by
    refine ⟨_, .snoc (.snoc (.snoc (.snoc (.snoc (.refl _) ⟨rfl, rfl⟩)
      ⟨by decide, by decide, rfl⟩) ⟨rfl, ?_⟩) ⟨rfl, rfl⟩) ⟨rfl, ?_⟩⟩
    all_goals
      intro m same
      obtain rfl := Option.some.inj same
      decide
  obtain ⟨acts, run⟩ := run
  have removed := reported _ acts confused (text "f") _ (startedWith_initial (by decide) [7]) run
    rfl (by decide)
  rcases removed with none | ⟨other, _⟩
  · exact none
  · exact absurd other (by decide)

end TFTP.DeleteSessions
