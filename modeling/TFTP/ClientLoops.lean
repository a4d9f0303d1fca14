import TFTP.Sockets

/-!
# The transfer loops of the client

`handleRRQRequest` and `handleLSRequest` receive, `handleWRQRequest` sends, and
`handleDELETERequest` waits for one answer. The read and write loops learn the
server's port from the first packet that comes from its IP address; the other two
look at the IP address only. `clientAddress` is a member that no code assigns.
-/

namespace TFTP.Client

open Octets Packet Sockets Runs

/-- The source test of the read and write loops: the server's address after it, or
`none` where the packet is answered by `Unknown transfer ID` and dropped. -/
def verifySource (serverAddress : Addr) (initialPacket : Bool) (recvAddress : Addr) :
    Option Addr :=
  if recvAddress.ip ≠ serverAddress.ip then none
  else if initialPacket then some { serverAddress with port := recvAddress.port }
  else if serverAddress.port ≠ recvAddress.port then none
  else some serverAddress

def unknownTid (recvAddress : Addr) : Effect :=
  sendError recvAddress errorUnknownTid "Unknown transfer ID"

inductive ReadStatus where
  | receiving
  | completed
  | failed
  | exhausted
  | undefined
  deriving DecidableEq, Repr

structure ReadLoop where
  recievedBuffer : RecvBuffer
  expectedBlockNumber : UInt16
  retry : Nat
  initialPacket : Bool
  serverAddress : Addr
  content : List UInt8
  status : ReadStatus
  deriving DecidableEq

def ReadLoop.start (serverAddress : Addr) : ReadLoop where
  recievedBuffer := Buffer.zero 516
  expectedBlockNumber := 1
  retry := maxRetry
  initialPacket := true
  serverAddress := serverAddress
  content := []
  status := .receiving

/-- `handleRRQRequest` from behind its `recvfrom` to the next one or to its exit.
A block is acknowledged to `clientAddress`, a repeated one to `serverAddress`. -/
def readStep (clientAddress : Addr) (s : ReadLoop) (e : Recv) (io : LocalIO) :
    ReadLoop × List Effect :=
  match e with
  | .timeout =>
    ({ s with
        retry := s.retry - 1
        status := if s.retry - 1 = 0 then .exhausted else s.status }, [])
  | .datagram recvAddress d =>
    let recievedBuffer := s.recievedBuffer.fill d
    let readBytes := received 516 d
    if readBytes > maxPacketSize then
      ({ s with recievedBuffer },
        [sendError recvAddress errorAccessViolation "Illegal TFTP operation"])
    else
      let s := { s with recievedBuffer, retry := maxRetry }
      match verifySource s.serverAddress s.initialPacket recvAddress with
      | none => (s, [unknownTid recvAddress])
      | some serverAddress =>
        let s := { s with serverAddress, initialPacket := false }
        let opcode := opcodeAt recievedBuffer
        if opcode ≠ opcodeError ∧ opcode ≠ opcodeData then
          ({ s with status := .failed }, examineOpcode ++
            [sendError recvAddress errorIllegalTftpOperation "Illegal TFTP operation"])
        else
          let recvBlockNumber := recvBlockNumberAt recievedBuffer
          let dataLength : Int := readBytes - 4
          let used := examineOpcode ++ examineNumber ++ [.payload dataLength]
          if dataLength < 0 then ({ s with status := .undefined }, used)
          else
            let recvData := recvDataAt recievedBuffer dataLength.toNat
            if opcode = opcodeError then ({ s with status := .failed }, used)
            else if recvBlockNumber ≠ s.expectedBlockNumber then
              (s, used ++ [sendACK serverAddress (s.expectedBlockNumber - 1)])
            else if io.writeFails then
              ({ s with status := .failed }, used ++
                [sendError serverAddress errorDiskFull "Disk full or allocation exceeded."])
            else
              ({ s with
                  expectedBlockNumber := s.expectedBlockNumber + 1
                  content := s.content ++ recvData
                  status := if dataLength < 512 then .completed else s.status },
                used ++ [.write recvData, sendACK clientAddress recvBlockNumber])

def readReactor (clientAddress : Addr) : Reactor ReadLoop (Recv × LocalIO) Effect where
  running := fun s => decide (s.status = .receiving)
  react := fun s e => readStep clientAddress s e.1 e.2

/-- A turn that stores nothing: a timeout, a packet that is turned away, a repeated
block or a failed write. -/
structure ReadLoop.Quiet (s t : ReadLoop) (out : List Effect) : Prop where
  content : t.content = s.content
  expected : t.expectedBlockNumber = s.expectedBlockNumber
  completed : t.status = .completed → s.status = .completed
  writes : writes out = []

/-- A turn that stores the payload of a datagram from the verified source. -/
structure ReadLoop.Accepts (s t : ReadLoop) (src : Addr) (d : List UInt8) (out : List Effect) :
    Prop where
  verified : verifySource s.serverAddress s.initialPacket src ≠ none
  header : 4 ≤ received 516 d
  opcode : opcodeAt (s.recievedBuffer.fill d) = opcodeData
  number : recvBlockNumberAt (s.recievedBuffer.fill d) = s.expectedBlockNumber
  content : t.content = s.content ++ recvDataAt (s.recievedBuffer.fill d) (received 516 d - 4)
  expected : t.expectedBlockNumber = s.expectedBlockNumber + 1
  completed : t.status = .completed → s.status = .completed ∨ received 516 d < 516
  writes : writes out = [recvDataAt (s.recievedBuffer.fill d) (received 516 d - 4)]

theorem readStep_cases (clientAddress : Addr) (s : ReadLoop) (e : Recv) (io : LocalIO) :
    s.Quiet (readStep clientAddress s e io).1 (readStep clientAddress s e io).2 ∨
      ∃ src d, e = .datagram src d ∧
        s.Accepts (readStep clientAddress s e io).1 src d (readStep clientAddress s e io).2 := by
  cases e with
  | timeout =>
    refine Or.inl ⟨rfl, rfl, ?_, rfl⟩
    simp only [readStep]
    split <;> simp
  | datagram src d =>
    have cap : ¬ received 516 d > maxPacketSize := Nat.not_lt.mpr (received_le 516 d)
    simp only [readStep, cap, if_false]
    cases verified : verifySource s.serverAddress s.initialPacket src with
    | none => exact Or.inl ⟨rfl, rfl, id, rfl⟩
    | some a =>
      simp only
      have size : ((received 516 d : Int) - 4).toNat = received 516 d - 4 := by omega
      split_ifs with illegal short error number failed brief
      · exact Or.inl ⟨rfl, rfl, by simp, rfl⟩
      · exact Or.inl ⟨rfl, rfl, by simp, rfl⟩
      · exact Or.inl ⟨rfl, rfl, by simp, rfl⟩
      · exact Or.inl ⟨rfl, rfl, id, rfl⟩
      · exact Or.inl ⟨rfl, rfl, by simp, rfl⟩
      · exact Or.inr ⟨src, d, rfl, by simp [verified], by omega,
          not_not.mp fun other => illegal ⟨error, other⟩, not_not.mp number, by rw [size], rfl,
          fun _ => Or.inr (by omega), by rw [size]; rfl⟩
      · exact Or.inr ⟨src, d, rfl, by simp [verified], by omega,
          not_not.mp fun other => illegal ⟨error, other⟩, not_not.mp number, by rw [size], rfl,
          Or.inl, by rw [size]; rfl⟩

/-- A datagram that fails the source test. -/
theorem readStep_stranger (clientAddress : Addr) (s : ReadLoop) {src : Addr} (d : List UInt8)
    (io : LocalIO) (stranger : verifySource s.serverAddress s.initialPacket src = none) :
    readStep clientAddress s (.datagram src d) io =
      ({ s with recievedBuffer := s.recievedBuffer.fill d, retry := maxRetry },
        [unknownTid src]) := by
  have cap : ¬ received 516 d > maxPacketSize := Nat.not_lt.mpr (received_le 516 d)
  simp only [readStep, cap, if_false, stranger]

theorem readStep_verified (clientAddress : Addr) (s : ReadLoop) {src a : Addr} (d : List UInt8)
    (io : LocalIO) (verified : verifySource s.serverAddress s.initialPacket src = some a) :
    (readStep clientAddress s (.datagram src d) io).1.serverAddress = a ∧
      (readStep clientAddress s (.datagram src d) io).1.initialPacket = false ∧
      (readStep clientAddress s (.datagram src d) io).1.retry = maxRetry := by
  have cap : ¬ received 516 d > maxPacketSize := Nat.not_lt.mpr (received_le 516 d)
  simp only [readStep, cap, if_false, verified]
  split_ifs <;> exact ⟨rfl, rfl, rfl⟩

/-- The expected block is stored; a short one ends the loop. -/
theorem readStep_accept (clientAddress : Addr) (s : ReadLoop) {src a : Addr} {d : List UInt8}
    {io : LocalIO} (verified : verifySource s.serverAddress s.initialPacket src = some a)
    (h4 : 4 ≤ d.length) (fits : d.length ≤ 516) (op : opcodeOf d = opcodeData)
    (num : numberOf d = s.expectedBlockNumber) (stored : io.writeFails = false) :
    (readStep clientAddress s (.datagram src d) io).1 =
      { recievedBuffer := s.recievedBuffer.fill d
        expectedBlockNumber := s.expectedBlockNumber + 1
        retry := maxRetry
        initialPacket := false
        serverAddress := a
        content := s.content ++ d.drop 4
        status := if d.length < 516 then .completed else s.status } := by
  have h2 : 2 ≤ d.length := by omega
  have hr : received 516 d = d.length := Nat.min_eq_right fits
  have size : ((d.length : Int) - 4).toNat = d.length - 4 := by omega
  have nonneg : ¬ ((d.length : Int) - 4 < 0) := by omega
  have short : ((d.length : Int) - 4 < 512) ↔ d.length < 516 := by omega
  have data : ¬ opcodeData = opcodeError := by decide
  simp only [readStep, hr, maxPacketSize, Nat.not_lt.mpr fits, if_false, verified,
    opcodeAt_fill _ h2, op, data, recvBlockNumberAt_fill _ h4, num, ne_eq, not_true_eq_false,
    and_false, nonneg, stored, size, recvDataAt_fill _ h4 fits, short, Bool.false_eq_true]

/-- The turn meets the block it waits for and stores it. -/
def Stores (s : ReadLoop) : Recv × LocalIO → Prop
  | (.timeout, _) => False
  | (.datagram src d, io) => verifySource s.serverAddress s.initialPacket src ≠ none ∧
      4 ≤ received 516 d ∧ opcodeAt (s.recievedBuffer.fill d) = opcodeData ∧
      recvBlockNumberAt (s.recievedBuffer.fill d) = s.expectedBlockNumber ∧ io.writeFails = false

/-- A stored block is acknowledged to the member. -/
theorem readStep_stores (clientAddress : Addr) (s : ReadLoop) {src : Addr} {d : List UInt8}
    {io : LocalIO} (stores : Stores s (.datagram src d, io)) :
    (readStep clientAddress s (.datagram src d) io).2 =
      examineOpcode ++ examineNumber ++ [.payload (received 516 d - 4)] ++
        [.write (recvDataAt (s.recievedBuffer.fill d) (received 516 d - 4)),
          sendACK clientAddress s.expectedBlockNumber] := by
  obtain ⟨verified, header, op, num, stored⟩ := stores
  have cap : ¬ received 516 d > maxPacketSize := Nat.not_lt.mpr (received_le 516 d)
  have nonneg : ¬ ((received 516 d : Int) - 4 < 0) := by omega
  have size : ((received 516 d : Int) - 4).toNat = received 516 d - 4 := by omega
  have data : ¬ opcodeData = opcodeError := by decide
  cases source : verifySource s.serverAddress s.initialPacket src with
  | none => exact absurd source verified
  | some a =>
    simp only [readStep, cap, if_false, source, op, data, num, ne_eq, not_true_eq_false,
      and_false, nonneg, stored, size, Bool.false_eq_true]

/-- Every other turn acknowledges a block to the server's address, if it does at all. -/
theorem readStep_acks (clientAddress : Addr) (s : ReadLoop) {src a : Addr} {d : List UInt8}
    {io : LocalIO} (verified : verifySource s.serverAddress s.initialPacket src = some a)
    (other : ¬ Stores s (.datagram src d, io)) {dst : Addr} {p : List UInt8}
    (sent : .send dst p ∈ (readStep clientAddress s (.datagram src d) io).2)
    (ack : opcodeOf p = opcodeAck) : dst = a := by
  have cap : ¬ received 516 d > maxPacketSize := Nat.not_lt.mpr (received_le 516 d)
  have notComplaint : ∀ {e : Addr} {code : UInt16} {msg : String},
      ¬ Effect.send dst p = sendError e code msg := by
    intro e code msg same
    rw [(complaint_reads (sendError_complaint same)).2] at ack
    exact absurd ack (by decide)
  simp only [readStep, cap, if_false, verified] at sent
  split_ifs at sent with illegal short error number failed
  · simp [examineOpcode, notComplaint] at sent
  · simp [examineOpcode, examineNumber] at sent
  · simp [examineOpcode, examineNumber] at sent
  · simp [examineOpcode, examineNumber, sendACK] at sent
    exact sent.1
  · simp [examineOpcode, examineNumber, notComplaint] at sent
  all_goals
    have data := not_not.mp fun wrong => illegal ⟨error, wrong⟩
    exact absurd ⟨by simp [verified], by omega, data, not_not.mp number, by simpa using failed⟩
      other

inductive WriteStatus where
  | sending
  | succeeded
  | failed
  | exhausted
  | undefined
  deriving DecidableEq, Repr

/-- The receive buffer is zeroed in every turn and is not part of the state. -/
structure WriteLoop where
  expectedBlockNumber : UInt16
  retry : Nat
  initialPacket : Bool
  serverAddress : Addr
  status : WriteStatus
  deriving DecidableEq

def WriteLoop.start (serverAddress : Addr) : WriteLoop where
  expectedBlockNumber := 0
  retry := maxRetry
  initialPacket := true
  serverAddress := serverAddress
  status := .sending

/-- The end of a turn of `handleWRQRequest`, once an acknowledgement is accepted:
the next block is read and sent, and a short one is reported as success at once. -/
def writeNext (file : Option (List UInt8)) (recvAddress : Addr) (s : WriteLoop) (io : LocalIO) :
    WriteLoop × List Effect :=
  let s := { s with expectedBlockNumber := s.expectedBlockNumber + 1 }
  let data := readDataBlock file s.expectedBlockNumber
  if data.length = 0 then ({ s with status := .failed }, [])
  else if io.sendFails then ({ s with status := .failed }, [])
  else
    ({ s with status := if data.length < 512 then .succeeded else s.status },
      [.send recvAddress (dataDatagram s.expectedBlockNumber data)])

/-- `handleWRQRequest` from behind its `recvfrom` to the next one or to its exit. -/
def writeStep (file : Option (List UInt8)) (s : WriteLoop) (e : Recv) (io : LocalIO) :
    WriteLoop × List Effect :=
  match e with
  | .timeout =>
    ({ s with
        retry := s.retry - 1
        status := if s.retry - 1 = 0 then .exhausted else s.status }, [])
  | .datagram recvAddress d =>
    let recievedBuffer := (Buffer.zero 516).fill d
    let readBytes := received 516 d
    if readBytes > maxPacketSize then
      (s, [sendError recvAddress errorAccessViolation "Illegal TFTP operation"])
    else
      let s := { s with retry := maxRetry }
      match verifySource s.serverAddress s.initialPacket recvAddress with
      | none => (s, [unknownTid recvAddress])
      | some serverAddress =>
        let s := { s with serverAddress, initialPacket := false }
        let opcode := opcodeAt recievedBuffer
        if opcode ≠ opcodeError ∧ opcode ≠ opcodeAck then
          ({ s with status := .failed }, examineOpcode ++
            [sendError recvAddress errorIllegalTftpOperation "Illegal TFTP operation"])
        else
          let recvBlockNumber := recvBlockNumberAt recievedBuffer
          let used := examineOpcode ++ examineNumber
          if opcode = opcodeError then
            let dataLength : Int := readBytes - 4
            ({ s with status := if dataLength < 0 then .undefined else .failed },
              used ++ [.payload dataLength])
          else if recvBlockNumber ≠ s.expectedBlockNumber then
            if s.expectedBlockNumber = 0 then
              ({ s with status := .failed }, used ++
                [sendError recvAddress errorIllegalTftpOperation "Illegal TFTP operation"])
            else (s, used)
          else
            let next := writeNext file recvAddress s io
            (next.1, used ++ next.2)

def writeReactor (file : Option (List UInt8)) :
    Reactor WriteLoop (Recv × LocalIO) Effect where
  running := fun s => decide (s.status = .sending)
  react := fun s e => writeStep file s e.1 e.2

/-- A turn that sends no block: the counter stands still or the loop has failed. -/
structure WriteLoop.Quiet (s t : WriteLoop) (out : List Effect) : Prop where
  counter : t.status = .failed ∨ t.expectedBlockNumber = s.expectedBlockNumber
  succeeded : t.status = .succeeded → s.status = .succeeded
  sends : ∀ dst p, .send dst p ∈ out → Complaint p

/-- A turn that accepts an acknowledgement and sends the next block. -/
structure WriteLoop.Advances (file : List UInt8) (s t : WriteLoop) (src : Addr) (d : List UInt8)
    (out : List Effect) : Prop where
  verified : verifySource s.serverAddress s.initialPacket src ≠ none
  opcode : opcodeAt ((Buffer.zero 516).fill d) = opcodeAck
  number : recvBlockNumberAt ((Buffer.zero 516).fill d) = s.expectedBlockNumber
  expected : t.expectedBlockNumber = s.expectedBlockNumber + 1
  pos : t.expectedBlockNumber ≠ 0
  nonempty : block file t.expectedBlockNumber.toNat ≠ []
  status : t.status =
    if (block file t.expectedBlockNumber.toNat).length < 512 then .succeeded else s.status
  sends : ∀ dst p, .send dst p ∈ out ↔ dst = src ∧
    p = header 3 t.expectedBlockNumber ++ block file t.expectedBlockNumber.toNat

theorem writeNext_cases (file : List UInt8) (recvAddress : Addr) (s : WriteLoop) (io : LocalIO) :
    ((writeNext (some file) recvAddress s io).1.status = .failed ∧
      (writeNext (some file) recvAddress s io).2 = []) ∨
      ∃ n, n = s.expectedBlockNumber + 1 ∧ n ≠ 0 ∧ block file n.toNat ≠ [] ∧
        writeNext (some file) recvAddress s io =
          ({ s with
              expectedBlockNumber := n
              status := if (block file n.toNat).length < 512 then .succeeded else s.status },
            [.send recvAddress (header 3 n ++ block file n.toNat)]) := by
  by_cases empty : (readDataBlock (some file) (s.expectedBlockNumber + 1)).length = 0
  · simp [writeNext, empty]
  · cases fails : io.sendFails with
    | true => simp [writeNext, empty, fails]
    | false =>
      have pos : s.expectedBlockNumber + 1 ≠ 0 := by
        intro zero
        rw [zero, readDataBlock_zero] at empty
        exact empty rfl
      refine Or.inr ⟨_, rfl, pos, ?_, ?_⟩
      · intro none_left
        rw [readDataBlock_pos file pos, none_left] at empty
        exact empty rfl
      · rw [readDataBlock_pos file pos] at empty
        simp only [writeNext, readDataBlock_pos file pos, empty, fails, if_false,
          Bool.false_eq_true, dataDatagram_eq]

theorem writeStep_cases (file : List UInt8) (s : WriteLoop) (e : Recv) (io : LocalIO) :
    s.Quiet (writeStep (some file) s e io).1 (writeStep (some file) s e io).2 ∨
      ∃ src d, e = .datagram src d ∧ s.Advances file (writeStep (some file) s e io).1 src d
        (writeStep (some file) s e io).2 := by
  have consult : ∀ dst p, ¬ .send dst p ∈ examineOpcode ++ examineNumber := by
    simp [examineOpcode, examineNumber]
  have complains : ∀ (used : List Effect) {a code msg}, (∀ dst p, ¬ .send dst p ∈ used) →
      ∀ dst p, .send dst p ∈ used ++ [sendError a code msg] → Complaint p := by
    intro used a code msg silent dst p hp
    rcases List.mem_append.mp hp with hp | hp
    · exact absurd hp (silent dst p)
    · exact sendError_complaint (List.mem_singleton.mp hp)
  cases e with
  | timeout =>
    refine Or.inl ⟨Or.inr rfl, ?_, by simp [writeStep]⟩
    simp only [writeStep]
    split <;> simp
  | datagram src d =>
    have cap : ¬ received 516 d > maxPacketSize := Nat.not_lt.mpr (received_le 516 d)
    simp only [writeStep, cap, if_false]
    cases verified : verifySource s.serverAddress s.initialPacket src with
    | none => exact Or.inl ⟨Or.inr rfl, id, complains [] (by simp)⟩
    | some a =>
      simp only
      by_cases illegal : opcodeAt ((Buffer.zero 516).fill d) ≠ opcodeError ∧
          opcodeAt ((Buffer.zero 516).fill d) ≠ opcodeAck
      · simp only [illegal, not_false_eq_true, and_self, if_true, ne_eq]
        exact Or.inl ⟨Or.inl rfl, by simp, complains _ (by simp [examineOpcode])⟩
      · simp only [illegal, if_false]
        by_cases error : opcodeAt ((Buffer.zero 516).fill d) = opcodeError
        · simp only [error, if_true]
          refine Or.inl ⟨Or.inr rfl, ?_, by simp [examineOpcode, examineNumber]⟩
          split <;> simp
        · have ack : opcodeAt ((Buffer.zero 516).fill d) = opcodeAck := by tauto
          simp only [error, if_false]
          by_cases number : recvBlockNumberAt ((Buffer.zero 516).fill d) = s.expectedBlockNumber
          · simp only [number, ne_eq, not_true_eq_false, if_false]
            rcases writeNext_cases file src ⟨s.expectedBlockNumber, maxRetry, false, a, s.status⟩ io
              with ⟨failed, silent⟩ | ⟨n, hn, pos, nonempty, next⟩
            · rw [silent, List.append_nil]
              exact Or.inl ⟨Or.inl failed, by simp [failed],
                fun dst p hp => absurd hp (consult dst p)⟩
            · rw [next]
              refine Or.inr ⟨src, d, rfl, by simp [verified], ack, number, hn, pos, nonempty, rfl,
                fun dst p => ?_⟩
              simp [examineOpcode, examineNumber]
          · rw [if_pos number]
            split
            · exact Or.inl ⟨Or.inl rfl, by simp, complains _ consult⟩
            · exact Or.inl ⟨Or.inr rfl, id, fun dst p hp => absurd hp (consult dst p)⟩

/-- An acceptable acknowledgement brings the loop to its next block. -/
theorem writeStep_ack (file : Option (List UInt8)) {s : WriteLoop} {src : Addr} {d : List UInt8}
    (io : LocalIO) (verified : verifySource s.serverAddress s.initialPacket src ≠ none)
    (op : opcodeAt ((Buffer.zero 516).fill d) = opcodeAck)
    (num : recvBlockNumberAt ((Buffer.zero 516).fill d) = s.expectedBlockNumber) :
    ∃ a, writeStep file s (.datagram src d) io =
      ((writeNext file src ⟨s.expectedBlockNumber, maxRetry, false, a, s.status⟩ io).1,
        examineOpcode ++ examineNumber ++
          (writeNext file src ⟨s.expectedBlockNumber, maxRetry, false, a, s.status⟩ io).2) := by
  have cap : ¬ received 516 d > maxPacketSize := Nat.not_lt.mpr (received_le 516 d)
  have ack : ¬ opcodeAck = opcodeError := by decide
  cases source : verifySource s.serverAddress s.initialPacket src with
  | none => exact absurd source verified
  | some a =>
    refine ⟨a, ?_⟩
    simp only [writeStep, cap, if_false, source, op, num, ack, ne_eq, not_true_eq_false, and_false]

theorem writeStep_stranger (file : Option (List UInt8)) (s : WriteLoop) {src : Addr}
    (d : List UInt8) (io : LocalIO)
    (stranger : verifySource s.serverAddress s.initialPacket src = none) :
    writeStep file s (.datagram src d) io =
      ({ s with retry := maxRetry }, [unknownTid src]) := by
  have cap : ¬ received 516 d > maxPacketSize := Nat.not_lt.mpr (received_le 516 d)
  simp only [writeStep, cap, if_false, stranger]

theorem writeStep_verified (file : Option (List UInt8)) (s : WriteLoop) {src a : Addr}
    (d : List UInt8) (io : LocalIO)
    (verified : verifySource s.serverAddress s.initialPacket src = some a) :
    (writeStep file s (.datagram src d) io).1.serverAddress = a ∧
      (writeStep file s (.datagram src d) io).1.initialPacket = false ∧
      (writeStep file s (.datagram src d) io).1.retry = maxRetry := by
  have cap : ¬ received 516 d > maxPacketSize := Nat.not_lt.mpr (received_le 516 d)
  simp only [writeStep, cap, if_false, verified, writeNext]
  split_ifs <;> exact ⟨rfl, rfl, rfl⟩

/-- The acknowledgement of the last block sent brings out the next one. -/
theorem writeStep_next (file : List UInt8) (s : WriteLoop) {src a : Addr} {d : List UInt8}
    {io : LocalIO} (verified : verifySource s.serverAddress s.initialPacket src = some a)
    (h4 : 4 ≤ d.length) (op : opcodeOf d = opcodeAck) (num : numberOf d = s.expectedBlockNumber)
    (pos : s.expectedBlockNumber + 1 ≠ 0)
    (more : block file (s.expectedBlockNumber + 1).toNat ≠ []) (sends : io.sendFails = false) :
    writeStep (some file) s (.datagram src d) io =
      ({ expectedBlockNumber := s.expectedBlockNumber + 1
         retry := maxRetry
         initialPacket := false
         serverAddress := a
         status := if (block file (s.expectedBlockNumber + 1).toNat).length < 512 then .succeeded
           else s.status },
        examineOpcode ++ examineNumber ++ [.send src
          (header 3 (s.expectedBlockNumber + 1) ++
            block file (s.expectedBlockNumber + 1).toNat)]) := by
  have h2 : 2 ≤ d.length := by omega
  have cap : ¬ received 516 d > maxPacketSize := Nat.not_lt.mpr (received_le 516 d)
  have notError : ¬ opcodeAck = opcodeError := by decide
  have nonempty : ¬ (block file (s.expectedBlockNumber + 1).toNat).length = 0 :=
    fun none => more (List.length_eq_zero_iff.mp none)
  simp only [writeStep, cap, if_false, verified, opcodeAt_fill _ h2, op, notError, ne_eq,
    not_true_eq_false, and_false, recvBlockNumberAt_fill _ h4, num, writeNext,
    readDataBlock_pos file pos, nonempty, sends, Bool.false_eq_true, dataDatagram_eq]

inductive ListStatus where
  | receiving
  | completed
  | diskFull
  | failed
  | exhausted
  | undefined
  deriving DecidableEq, Repr

structure ListLoop where
  recievedBuffer : RecvBuffer
  expectedBlockNumber : UInt16
  retry : Nat
  content : List UInt8
  status : ListStatus
  deriving DecidableEq

/-- The receive buffer starts with whatever the stack held. -/
def ListLoop.start (recievedBuffer : RecvBuffer) : ListLoop where
  recievedBuffer := recievedBuffer
  expectedBlockNumber := 1
  retry := maxRetry
  content := []
  status := .receiving

/-- `handleLSRequest` of the client from behind its `recvfrom` to the next one. -/
def listStep (serverAddress : Addr) (s : ListLoop) (e : Recv) (io : LocalIO) :
    ListLoop × List Effect :=
  match e with
  | .timeout =>
    ({ s with
        retry := s.retry - 1
        status := if s.retry - 1 = 0 then .exhausted else s.status }, [])
  | .datagram recvAddress d =>
    let recievedBuffer := s.recievedBuffer.fill d
    let readBytes := received 516 d
    if readBytes > maxPacketSize then
      ({ s with recievedBuffer },
        [sendError recvAddress errorAccessViolation "Illegal TFTP operation"])
    else
      let s := { s with recievedBuffer, retry := maxRetry }
      if recvAddress.ip ≠ serverAddress.ip then (s, [unknownTid recvAddress])
      else if opcodeAt recievedBuffer ≠ opcodeData then
        ({ s with status := .failed }, examineOpcode ++
          [sendError recvAddress errorIllegalTftpOperation "Illegal TFTP operation"])
      else if recvBlockNumberAt recievedBuffer ≠ s.expectedBlockNumber then
        (s, examineOpcode ++ examineNumber)
      else
        let dataLength : Int := readBytes - 4
        let used := examineOpcode ++ examineNumber ++ [.payload dataLength]
        if dataLength < 0 then ({ s with status := .undefined }, used)
        else
          let recvData := recvDataAt recievedBuffer dataLength.toNat
          if io.writeFails then
            ({ s with status := .diskFull }, used ++
              [sendError serverAddress errorDiskFull "Disk full or allocation exceeded."])
          else
            ({ s with
                expectedBlockNumber := s.expectedBlockNumber + 1
                content := s.content ++ recvData
                status := if readBytes < maxPacketSize then .completed else s.status },
              used ++ [.write recvData, sendACK recvAddress s.expectedBlockNumber])

def listReactor (serverAddress : Addr) : Reactor ListLoop (Recv × LocalIO) Effect where
  running := fun s => decide (s.status = .receiving)
  react := fun s e => listStep serverAddress s e.1 e.2

theorem listStep_accept (serverAddress : Addr) (s : ListLoop) {src : Addr} {d : List UInt8}
    {io : LocalIO} (source : src.ip = serverAddress.ip) (h4 : 4 ≤ d.length)
    (fits : d.length ≤ 516) (op : opcodeOf d = opcodeData)
    (num : numberOf d = s.expectedBlockNumber) (stored : io.writeFails = false) :
    (listStep serverAddress s (.datagram src d) io).1 =
      { recievedBuffer := s.recievedBuffer.fill d
        expectedBlockNumber := s.expectedBlockNumber + 1
        retry := maxRetry
        content := s.content ++ d.drop 4
        status := if d.length < 516 then .completed else s.status } := by
  have h2 : 2 ≤ d.length := by omega
  have hr : received 516 d = d.length := Nat.min_eq_right fits
  have size : ((d.length : Int) - 4).toNat = d.length - 4 := by omega
  have nonneg : ¬ ((d.length : Int) - 4 < 0) := by omega
  simp only [listStep, hr, maxPacketSize, Nat.not_lt.mpr fits, if_false, source,
    opcodeAt_fill _ h2, op, recvBlockNumberAt_fill _ h4, num, ne_eq, not_true_eq_false, nonneg,
    stored, size, recvDataAt_fill _ h4 fits, Bool.false_eq_true]

/-- A turn that stores nothing. Its packets go to strangers, to the listening port, or
behind the end of the transfer. -/
structure ListLoop.Quiet (serverAddress : Addr) (s : ListLoop) (e : Recv) (t : ListLoop)
    (out : List Effect) : Prop where
  content : t.content = s.content
  expected : t.expectedBlockNumber = s.expectedBlockNumber
  completed : t.status = .completed → s.status = .completed
  failed : t.status = .failed → s.status = .failed ∨ ∃ src d, e = .datagram src d ∧
    src.ip = serverAddress.ip ∧ opcodeAt (s.recievedBuffer.fill d) ≠ opcodeData
  undefined : t.status = .undefined → s.status = .undefined ∨ ∃ src d, e = .datagram src d ∧
    src.ip = serverAddress.ip ∧ received 516 d < 4
  writes : writes out = []
  sends : ∀ dst p, .send dst p ∈ out →
    dst.ip ≠ serverAddress.ip ∨ dst = serverAddress ∨ t.status = .failed

/-- A turn that stores the payload of a datagram from the server's host. -/
structure ListLoop.Accepts (serverAddress : Addr) (s t : ListLoop) (src : Addr) (d : List UInt8)
    (out : List Effect) : Prop where
  source : src.ip = serverAddress.ip
  header : 4 ≤ received 516 d
  opcode : opcodeAt (s.recievedBuffer.fill d) = opcodeData
  number : recvBlockNumberAt (s.recievedBuffer.fill d) = s.expectedBlockNumber
  content : t.content = s.content ++ recvDataAt (s.recievedBuffer.fill d) (received 516 d - 4)
  expected : t.expectedBlockNumber = s.expectedBlockNumber + 1
  status : t.status = if received 516 d < 516 then .completed else s.status
  writes : writes out = [recvDataAt (s.recievedBuffer.fill d) (received 516 d - 4)]
  sends : ∀ dst p, .send dst p ∈ out → p = ackDatagram s.expectedBlockNumber

theorem listStep_cases (serverAddress : Addr) (s : ListLoop) (e : Recv) (io : LocalIO) :
    s.Quiet serverAddress e (listStep serverAddress s e io).1
        (listStep serverAddress s e io).2 ∨
      ∃ src d, e = .datagram src d ∧ s.Accepts serverAddress
        (listStep serverAddress s e io).1 src d (listStep serverAddress s e io).2 := by
  cases e with
  | timeout =>
    refine Or.inl ⟨rfl, rfl, ?_, ?_, ?_, rfl, fun dst p sent => absurd sent List.not_mem_nil⟩
    all_goals
      simp only [listStep]
      split <;> simp +contextual
  | datagram src d =>
    have cap : ¬ received 516 d > maxPacketSize := Nat.not_lt.mpr (received_le 516 d)
    have size : ((received 516 d : Int) - 4).toNat = received 516 d - 4 := by omega
    simp only [listStep, cap, if_false]
    split_ifs with stranger opcode number short failed brief
    · refine Or.inl ⟨rfl, rfl, id, Or.inl, Or.inl, rfl, fun dst p sent => Or.inl ?_⟩
      rw [(Effect.send.inj (List.mem_singleton.mp sent)).1]
      exact stranger
    · exact Or.inl ⟨rfl, rfl, by simp, fun _ => Or.inr ⟨src, d, rfl, not_not.mp stranger, opcode⟩,
        by simp, rfl, fun dst p sent => Or.inr (Or.inr rfl)⟩
    · refine Or.inl ⟨rfl, rfl, id, Or.inl, Or.inl, rfl, fun dst p sent => ?_⟩
      simp [examineOpcode, examineNumber] at sent
    · refine Or.inl ⟨rfl, rfl, by simp, by simp,
        fun _ => Or.inr ⟨src, d, rfl, not_not.mp stranger, by omega⟩, rfl, fun dst p sent => ?_⟩
      simp [examineOpcode, examineNumber] at sent
    · refine Or.inl ⟨rfl, rfl, by simp, by simp, by simp, rfl, fun dst p sent => Or.inr (Or.inl ?_)⟩
      simp [examineOpcode, examineNumber, sendError] at sent
      exact sent.1
    all_goals
      refine Or.inr ⟨src, d, rfl, not_not.mp stranger, by omega, not_not.mp opcode,
        not_not.mp number, by rw [size], rfl, ?_, by rw [size]; rfl, fun dst p sent => ?_⟩
    · exact (if_pos brief).symm
    · simp [examineOpcode, examineNumber, sendACK] at sent
      exact sent.2
    · exact (if_neg brief).symm
    · simp [examineOpcode, examineNumber, sendACK] at sent
      exact sent.2

inductive DeleteStatus where
  | waiting
  | deleted
  | failed
  | exhausted
  | undefined
  deriving DecidableEq, Repr

structure DeleteLoop where
  recievedBuffer : RecvBuffer
  retry : Nat
  status : DeleteStatus
  deriving DecidableEq

/-- The receive buffer starts with whatever the stack held. -/
def DeleteLoop.start (recievedBuffer : RecvBuffer) : DeleteLoop where
  recievedBuffer := recievedBuffer
  retry := maxRetry
  status := .waiting

/-- `handleDELETERequest` from behind its `recvfrom` to the next one or to its exit. -/
def deleteStep (serverAddress : Addr) (s : DeleteLoop) (e : Recv) : DeleteLoop × List Effect :=
  match e with
  | .timeout =>
    ({ s with
        retry := s.retry - 1
        status := if s.retry - 1 = 0 then .exhausted else s.status }, [])
  | .datagram recvAddress d =>
    let recievedBuffer := s.recievedBuffer.fill d
    let readBytes := received 516 d
    if readBytes > maxPacketSize then
      ({ s with recievedBuffer },
        [sendError recvAddress errorAccessViolation "Illegal TFTP operation"])
    else
      let s := { s with recievedBuffer, retry := maxRetry }
      if recvAddress.ip ≠ serverAddress.ip then (s, [unknownTid recvAddress])
      else
        let opcode := opcodeAt recievedBuffer
        if opcode ≠ opcodeError ∧ opcode ≠ opcodeAck then
          ({ s with status := .failed }, examineOpcode ++
            [sendError recvAddress errorIllegalTftpOperation "Illegal TFTP operation"])
        else
          let used := examineOpcode ++ examineNumber
          if opcode = opcodeAck then
            ({ s with
                status := if recvBlockNumberAt recievedBuffer = ackOk then .deleted
                  else .failed }, used)
          else
            let dataLength : Int := readBytes - 4
            ({ s with status := if dataLength < 0 then .undefined else .failed },
              used ++ [.payload dataLength])

/-- Success is reported on what reads as ACK 0 in a packet from the server's IP address. -/
theorem deleteStep_deleted {serverAddress : Addr} {s : DeleteLoop} {e : Recv}
    (waiting : s.status = .waiting) (deleted : (deleteStep serverAddress s e).1.status = .deleted) :
    ∃ src d, e = .datagram src d ∧ src.ip = serverAddress.ip ∧
      opcodeAt (s.recievedBuffer.fill d) = opcodeAck ∧
      recvBlockNumberAt (s.recievedBuffer.fill d) = ackOk := by
  cases e with
  | timeout =>
    simp only [deleteStep, waiting] at deleted
    split_ifs at deleted
  | datagram src d =>
    have cap : ¬ received 516 d > maxPacketSize := Nat.not_lt.mpr (received_le 516 d)
    simp only [deleteStep, cap, if_false] at deleted
    split_ifs at deleted with stranger illegal ack number
    · rw [waiting] at deleted
      cases deleted
    · exact ⟨src, d, rfl, not_not.mp stranger, ack, number⟩

/-- A waiting DELETE sends nothing but complaints. -/
theorem deleteStep_sends (serverAddress : Addr) (s : DeleteLoop) (e : Recv) {dst : Addr}
    {p : List UInt8} (sent : .send dst p ∈ (deleteStep serverAddress s e).2) : Complaint p := by
  cases e with
  | timeout => cases sent
  | datagram src d =>
    have cap : ¬ received 516 d > maxPacketSize := Nat.not_lt.mpr (received_le 516 d)
    simp only [deleteStep, cap, if_false] at sent
    split_ifs at sent
    · exact sendError_complaint (List.mem_singleton.mp sent)
    · simp only [examineOpcode, List.cons_append, List.nil_append, List.mem_cons, reduceCtorEq,
        List.not_mem_nil, or_false, false_or] at sent
      exact sendError_complaint sent
    all_goals simp [examineOpcode, examineNumber] at sent

end TFTP.Client
