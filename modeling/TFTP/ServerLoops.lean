import TFTP.Sockets

/-!
# The transfer loops of the server

`handleWriteRequest` receives; `handleReadRequest` and `handleLSRequest` send and
share one loop up to how they answer what they do not accept. Each step runs the
code from one receive call to the next. The source address of a datagram is never
looked at: both receive calls pass null pointers for it.
-/

namespace TFTP.Server

open Octets Packet Sockets Runs

/-- `undefined` marks a negative array size, after which nothing is promised. -/
inductive WriteStatus where
  | receiving
  | received
  | diskFull
  | exhausted
  | undefined
  deriving DecidableEq, Repr

structure WriteLoop where
  recievedBuffer : RecvBuffer
  expectedBlockNumber : UInt16
  retry : Nat
  content : List UInt8
  status : WriteStatus
  deriving DecidableEq

/-- The loop's variables after the zero fill and the acknowledgement of block 0. -/
def WriteLoop.start : WriteLoop where
  recievedBuffer := Buffer.zero 516
  expectedBlockNumber := 1
  retry := maxRetry
  content := []
  status := .receiving

/-- `handleWriteRequest` from behind its `recvfrom` to the next one or to its exit. -/
def writeStep (clientAddress : Addr) (s : WriteLoop) (e : Recv) (io : LocalIO) :
    WriteLoop × List Effect :=
  match e with
  | .timeout =>
    ({ s with
        retry := s.retry - 1
        status := if s.retry - 1 = 0 then .exhausted else s.status }, [])
  | .datagram _ d =>
    let recievedBuffer := s.recievedBuffer.fill d
    let readBytes := received 516 d
    if readBytes > 516 then
      ({ s with recievedBuffer },
        [sendError clientAddress errorIllegalTftpOperation "Illegal TFTP operation"])
    else
      let s := { s with recievedBuffer, retry := maxRetry }
      if opcodeAt recievedBuffer ≠ 3 then
        (s, examineOpcode ++
          [sendError clientAddress errorIllegalTftpOperation "Illegal TFTP operation"])
      else if recvBlockNumberAt recievedBuffer ≠ s.expectedBlockNumber then
        (s, examineOpcode ++ examineNumber ++
          [sendError clientAddress errorNotDefined "Incorrect Block Number Recieved. Resend"])
      else
        let dataLength : Int := readBytes - 4
        let used := examineOpcode ++ examineNumber ++ [.payload dataLength]
        if dataLength < 0 then ({ s with status := .undefined }, used)
        else
          let recvData := recvDataAt recievedBuffer dataLength.toNat
          if io.writeFails then
            ({ s with status := .diskFull }, used ++
              [sendError clientAddress errorDiskFull "Disk full or allocation exceeded."])
          else
            ({ s with
                expectedBlockNumber := s.expectedBlockNumber + 1
                content := s.content ++ recvData
                status := if dataLength < 512 then .received else s.status },
              used ++ [.write recvData, sendACK clientAddress s.expectedBlockNumber])

def writeReactor (clientAddress : Addr) : Reactor WriteLoop (Recv × LocalIO) Effect where
  running := fun s => decide (s.status = .receiving)
  react := fun s e => writeStep clientAddress s e.1 e.2

/-- A datagram that does not read as the expected block leaves the file and the counter
alone and is answered by an ERROR. -/
theorem writeStep_refuse (clientAddress : Addr) (s : WriteLoop) (src : Addr) (d : List UInt8)
    (io : LocalIO) (other : opcodeAt (s.recievedBuffer.fill d) ≠ 3 ∨
      recvBlockNumberAt (s.recievedBuffer.fill d) ≠ s.expectedBlockNumber) :
    ∃ used code msg, writeStep clientAddress s (.datagram src d) io =
      ({ s with recievedBuffer := s.recievedBuffer.fill d, retry := maxRetry },
        used ++ [sendError clientAddress code msg]) ∧
      ∀ e ∈ used, e ∈ examineOpcode ++ examineNumber := by
  have hr := received_le 516 d
  by_cases op : opcodeAt (s.recievedBuffer.fill d) = 3
  · have num := other.resolve_left (not_not.mpr op)
    refine ⟨examineOpcode ++ examineNumber, errorNotDefined,
      "Incorrect Block Number Recieved. Resend", ?_, fun e he => he⟩
    simp [writeStep, op, num, Nat.not_lt.mpr hr]
  · refine ⟨examineOpcode, errorIllegalTftpOperation, "Illegal TFTP operation", ?_,
      fun e he => List.mem_append_left _ he⟩
    simp [writeStep, op, Nat.not_lt.mpr hr]

/-- A full header is read as it came. -/
theorem writeStep_other (clientAddress : Addr) (s : WriteLoop) (src : Addr) {d : List UInt8}
    (io : LocalIO) (h4 : 4 ≤ d.length)
    (other : opcodeOf d ≠ 3 ∨ numberOf d ≠ s.expectedBlockNumber) :
    ∃ used code msg, writeStep clientAddress s (.datagram src d) io =
      ({ s with recievedBuffer := s.recievedBuffer.fill d, retry := maxRetry },
        used ++ [sendError clientAddress code msg]) ∧
      ∀ e ∈ used, e ∈ examineOpcode ++ examineNumber := by
  apply writeStep_refuse
  rw [opcodeAt_fill _ (by omega), recvBlockNumberAt_fill _ h4]
  exact other

/-- The expected block is stored and acknowledged; a short one ends the loop. -/
theorem writeStep_accept (clientAddress : Addr) (s : WriteLoop) (src : Addr) {d : List UInt8}
    {io : LocalIO} (h4 : 4 ≤ d.length) (fits : d.length ≤ 516) (op : opcodeOf d = 3)
    (num : numberOf d = s.expectedBlockNumber) (stored : io.writeFails = false) :
    writeStep clientAddress s (.datagram src d) io =
      ({ recievedBuffer := s.recievedBuffer.fill d
         expectedBlockNumber := s.expectedBlockNumber + 1
         retry := maxRetry
         content := s.content ++ d.drop 4
         status := if d.length < 516 then .received else s.status },
        examineOpcode ++ examineNumber ++ [.payload (d.length - 4)] ++
          [.write (d.drop 4), sendACK clientAddress s.expectedBlockNumber]) := by
  have h2 : 2 ≤ d.length := by omega
  have hr : received 516 d = d.length := Nat.min_eq_right fits
  have size : ((d.length : Int) - 4).toNat = d.length - 4 := by omega
  have nonneg : ¬ ((d.length : Int) - 4 < 0) := by omega
  have short : ((d.length : Int) - 4 < 512) ↔ d.length < 516 := by omega
  simp only [writeStep, hr, Nat.not_lt.mpr fits, if_false, opcodeAt_fill _ h2, op, ne_eq,
    not_true_eq_false, recvBlockNumberAt_fill _ h4, num, nonneg, stored, size,
    recvDataAt_fill _ h4 fits, short, Bool.false_eq_true]

/-- A turn that stores nothing: a timeout, a packet that is turned away or a failed
write. Nothing but complaints is sent. -/
structure WriteLoop.Quiet (s t : WriteLoop) (out : List Effect) : Prop where
  content : t.content = s.content
  expected : t.expectedBlockNumber = s.expectedBlockNumber
  received : t.status = .received → s.status = .received
  writes : writes out = []
  sends : ∀ dst p, .send dst p ∈ out → Complaint p

/-- A turn that stores a payload and acknowledges it. -/
structure WriteLoop.Accepts (clientAddress : Addr) (s t : WriteLoop) (d : List UInt8)
    (io : LocalIO) (out : List Effect) : Prop where
  header : 4 ≤ received 516 d
  opcode : opcodeAt (s.recievedBuffer.fill d) = 3
  number : recvBlockNumberAt (s.recievedBuffer.fill d) = s.expectedBlockNumber
  stored : io.writeFails = false
  content : t.content = s.content ++ recvDataAt (s.recievedBuffer.fill d) (received 516 d - 4)
  expected : t.expectedBlockNumber = s.expectedBlockNumber + 1
  status : t.status = if received 516 d < 516 then .received else s.status
  writes : writes out = [recvDataAt (s.recievedBuffer.fill d) (received 516 d - 4)]
  sends : sentTo clientAddress out = [ackDatagram s.expectedBlockNumber]

theorem writeStep_cases (clientAddress : Addr) (s : WriteLoop) (e : Recv) (io : LocalIO) :
    s.Quiet (writeStep clientAddress s e io).1 (writeStep clientAddress s e io).2 ∨
      ∃ src d, e = .datagram src d ∧ s.Accepts clientAddress
        (writeStep clientAddress s e io).1 d io (writeStep clientAddress s e io).2 := by
  cases e with
  | timeout =>
    refine Or.inl ⟨rfl, rfl, ?_, rfl, by simp [writeStep]⟩
    simp only [writeStep]
    split <;> simp
  | datagram src d =>
    have cap : ¬ Octets.received 516 d > 516 := Nat.not_lt.mpr (received_le 516 d)
    have size : ((Octets.received 516 d : Int) - 4).toNat = Octets.received 516 d - 4 := by omega
    simp only [writeStep, cap, if_false]
    by_cases op : opcodeAt (s.recievedBuffer.fill d) = 3
    · by_cases num : recvBlockNumberAt (s.recievedBuffer.fill d) = s.expectedBlockNumber
      · by_cases short : (Octets.received 516 d : Int) - 4 < 0
        · simp only [op, num, short, ne_eq, not_true_eq_false, if_false, if_true]
          exact Or.inl ⟨rfl, rfl, by simp, rfl, by simp [examineOpcode, examineNumber]⟩
        · simp only [op, num, short, ne_eq, not_true_eq_false, if_false]
          cases failed : io.writeFails with
          | true =>
            refine Or.inl ⟨rfl, rfl, by simp, rfl, fun dst p hp => ?_⟩
            simp only [examineOpcode, examineNumber, if_true, List.cons_append, List.nil_append,
              List.mem_cons, reduceCtorEq, List.not_mem_nil, or_false, false_or] at hp
            exact sendError_complaint hp
          | false =>
            have brief :
                ((Octets.received 516 d : Int) - 4 < 512) ↔ Octets.received 516 d < 516 := by
              omega
            refine Or.inr ⟨src, d, rfl, ⟨by omega, op, num, failed, ?_, rfl, ?_, ?_, ?_⟩⟩
            · simp [size]
            · simp [brief]
            · simp [size, writes, examineOpcode, examineNumber, sendACK]
            · simp [sentTo, examineOpcode, examineNumber, sendACK]
      · simp only [op, num, ne_eq, not_true_eq_false, not_false_eq_true, if_false, if_true]
        refine Or.inl ⟨rfl, rfl, id, rfl, fun dst p hp => ?_⟩
        simp only [examineOpcode, examineNumber, List.cons_append, List.nil_append, List.mem_cons,
          reduceCtorEq, List.not_mem_nil, or_false, false_or] at hp
        exact sendError_complaint hp
    · simp only [op, ne_eq, not_false_eq_true, if_true]
      refine Or.inl ⟨rfl, rfl, id, rfl, fun dst p hp => ?_⟩
      simp only [examineOpcode, List.cons_append, List.nil_append, List.mem_cons, reduceCtorEq,
        List.not_mem_nil, or_false, false_or] at hp
      exact sendError_complaint hp

/-- The stored payloads of a turn are what the loop's content grows by. -/
theorem writeStep_content (clientAddress : Addr) (s : WriteLoop) (e : Recv) (io : LocalIO) :
    (writeStep clientAddress s e io).1.content =
      s.content ++ (writes (writeStep clientAddress s e io).2).flatten := by
  rcases writeStep_cases clientAddress s e io with quiet | ⟨_, _, _, accepts⟩
  · simp [quiet.content, quiet.writes]
  · simp [accepts.content, accepts.writes]

inductive SendStatus where
  | sending
  | finished
  | exhausted
  | aborted
  deriving DecidableEq, Repr

/-- `ackBuffer` is a local of the loop body that no turn clears: its stack slot
keeps the bytes of the turn before. -/
structure SendLoop where
  blockNumber : UInt16
  ackBuffer : Buffer 4
  retry : Nat
  dataSize : Nat
  status : SendStatus
  deriving DecidableEq

def SendLoop.start (ackBuffer : Buffer 4) : SendLoop where
  blockNumber := 1
  ackBuffer := ackBuffer
  retry := maxRetry
  dataSize := 0
  status := .sending

/-- Where the two sender loops differ: an ERROR for an acknowledgement that does
not match, leaving the loop on an oversized one, and testing `sendto`. -/
structure Manner where
  answersInvalid : Bool
  leavesOnOversized : Bool
  testsSend : Bool

/-- `handleReadRequest`. -/
def readManner : Manner := ⟨true, false, false⟩

/-- `handleLSRequest`. -/
def listManner : Manner := ⟨false, true, true⟩

/-- Opcode and number of an acknowledgement, decoded without masks. -/
def ackOpcodeAt (ackBuffer : Buffer 4) : UInt16 := loadSigned (ackBuffer.get 0) (ackBuffer.get 1)

def ackBlockNumberAt (ackBuffer : Buffer 4) : UInt16 :=
  loadSigned (ackBuffer.get 2) (ackBuffer.get 3)

/-- Block 128 is never acknowledged: no byte is read as the low byte 128 of a number. -/
theorem ackBlockNumberAt_ne (ackBuffer : Buffer 4) : ackBlockNumberAt ackBuffer ≠ 128 := by
  intro same
  have value := congrArg UInt16.toNat same
  rw [ackBlockNumberAt, loadSigned_toNat] at value
  change _ = 128 at value
  split_ifs at value <;> omega

/-- The head of the loop, from the test of `retry` to the receive call. -/
def sendTop (m : Manner) (clientAddress : Addr) (file : Option (List UInt8)) (io : LocalIO)
    (s : SendLoop) : SendLoop × List Effect :=
  if s.retry = 0 then ({ s with status := .exhausted }, [])
  else
    let data := readDataBlock file s.blockNumber
    if data.length = 0 then ({ s with dataSize := 0, status := .finished }, [])
    else
      let s := { s with dataSize := data.length }
      if io.sendFails then
        (if m.testsSend then { s with status := .aborted } else s, [])
      else (s, [.send clientAddress (dataDatagram s.blockNumber data)])

def illegalAck (clientAddress : Addr) : Effect :=
  sendError clientAddress errorAccessViolation "Illegal TFTP operation"

/-- One turn of a sender loop, `file` being what the path names while it reads. -/
def sendStep (m : Manner) (clientAddress : Addr) (file : Option (List UInt8)) (s : SendLoop)
    (e : Recv) (io : LocalIO) : SendLoop × List Effect :=
  match e with
  | .timeout => sendTop m clientAddress file io { s with retry := s.retry - 1 }
  | .datagram _ d =>
    let s := { s with ackBuffer := s.ackBuffer.fill d }
    if received 4 d > maxPacketSize then
      if m.leavesOnOversized then ({ s with status := .aborted }, [illegalAck clientAddress])
      else
        let next := sendTop m clientAddress file io s
        (next.1, illegalAck clientAddress :: next.2)
    else
      let s := { s with retry := maxRetry }
      let used := examineOpcode ++ examineNumber
      if ackOpcodeAt s.ackBuffer ≠ 4 ∨ ackBlockNumberAt s.ackBuffer ≠ s.blockNumber then
        let next := sendTop m clientAddress file io s
        (next.1, used ++ (if m.answersInvalid then [illegalAck clientAddress] else []) ++ next.2)
      else if s.dataSize < 512 then ({ s with status := .finished }, used)
      else
        let next := sendTop m clientAddress file io { s with blockNumber := s.blockNumber + 1 }
        (next.1, used ++ next.2)

def sendReactor (m : Manner) (clientAddress : Addr) (file : Option (List UInt8)) :
    Reactor SendLoop (Recv × LocalIO) Effect where
  running := fun s => decide (s.status = .sending)
  react := fun s e => sendStep m clientAddress file s e.1 e.2

/-- The acknowledgement the loop waits for ends it behind a short block, and else brings it
to the next one. -/
theorem sendStep_ack (m : Manner) (clientAddress : Addr) (file : Option (List UInt8))
    {s : SendLoop} (src : Addr) {d : List UInt8} (io : LocalIO)
    (op : ackOpcodeAt (s.ackBuffer.fill d) = 4)
    (num : ackBlockNumberAt (s.ackBuffer.fill d) = s.blockNumber) :
    sendStep m clientAddress file s (.datagram src d) io =
      if s.dataSize < 512 then
        ({ s with ackBuffer := s.ackBuffer.fill d, retry := maxRetry, status := .finished },
          examineOpcode ++ examineNumber)
      else
        let next := sendTop m clientAddress file io
          { s with
            ackBuffer := s.ackBuffer.fill d
            retry := maxRetry
            blockNumber := s.blockNumber + 1 }
        (next.1, examineOpcode ++ examineNumber ++ next.2) := by
  have cap : ¬ received 4 d > maxPacketSize :=
    Nat.not_lt.mpr (Nat.le_trans (received_le 4 d) (by decide))
  simp only [sendStep, cap, if_false, op, num, ne_eq, not_true_eq_false, or_self]

/-- What a sender loop puts on the wire for a file: a DATA packet with the block of its
own number, which is never 0, or the complaint about an acknowledgement. -/
def SenderPacket (file p : List UInt8) : Prop :=
  (∃ n : UInt16, n ≠ 0 ∧ p = header 3 n ++ block file n.toNat) ∨
    p = errorDatagram errorAccessViolation (text "Illegal TFTP operation")

/-- Below its limit the counter names a block of the file, which goes out if it has any
bytes. -/
theorem sendTop_block (m : Manner) (clientAddress : Addr) {file : List UInt8} {s : SendLoop}
    {b : Nat} (retry : s.retry ≠ 0) (number : s.blockNumber.toNat = b + 1)
    (left : b * 512 < file.length) :
    sendTop m clientAddress (some file) .ok s =
      ({ s with dataSize := (block file (b + 1)).length },
        [.send clientAddress (header 3 s.blockNumber ++ block file (b + 1))]) := by
  have pos : s.blockNumber ≠ 0 := by
    intro zero
    rw [zero] at number
    cases number
  have read : readDataBlock (some file) s.blockNumber = block file (b + 1) := by
    rw [readDataBlock_pos file pos, number]
  have nonempty := block_nonempty_iff file (b + 1)
  rw [Nat.add_sub_cancel] at nonempty
  have some_bytes : (block file (b + 1)).length ≠ 0 :=
    fun h => nonempty.mpr left (List.length_eq_zero_iff.mp h)
  simp [sendTop, retry, read, some_bytes, LocalIO.ok, dataDatagram_eq]

/-- Nothing is read: the loop is left. -/
theorem sendTop_empty (m : Manner) (clientAddress : Addr) {file : List UInt8} {s : SendLoop}
    {b : Nat} (retry : s.retry ≠ 0) (number : s.blockNumber.toNat = b + 1)
    (none : file.length ≤ b * 512) :
    sendTop m clientAddress (some file) .ok s =
      ({ s with dataSize := 0, status := .finished }, []) := by
  have pos : s.blockNumber ≠ 0 := by
    intro zero
    rw [zero] at number
    cases number
  have empty : readDataBlock (some file) s.blockNumber = [] := by
    rw [readDataBlock_pos file pos, number]
    refine not_not.mp fun h => Nat.not_lt.mpr none ?_
    have reach := (block_nonempty_iff file (b + 1)).mp h
    rwa [Nat.add_sub_cancel] at reach
  simp [sendTop, retry, empty]

theorem sendTop_data (m : Manner) (clientAddress : Addr) (file : List UInt8) (io : LocalIO)
    (s : SendLoop) {dst : Addr} {p : List UInt8}
    (sent : .send dst p ∈ (sendTop m clientAddress (some file) io s).2) :
    ∃ n : UInt16, n ≠ 0 ∧ p = header 3 n ++ block file n.toNat := by
  simp only [sendTop] at sent
  by_cases retry : s.retry = 0
  · simp [retry] at sent
  · by_cases empty : (readDataBlock (some file) s.blockNumber).length = 0
    · simp [retry, empty] at sent
    · cases fails : io.sendFails with
      | true => simp [retry, empty, fails] at sent
      | false =>
        have pos : s.blockNumber ≠ 0 := by
          intro zero
          rw [zero, readDataBlock_zero] at empty
          exact empty rfl
        simp only [retry, empty, fails, if_false, Bool.false_eq_true, List.mem_singleton,
          Effect.send.injEq] at sent
        obtain ⟨_, hp⟩ := sent
        rw [dataDatagram_eq, readDataBlock_pos file pos] at hp
        exact ⟨s.blockNumber, pos, hp⟩

theorem sendTop_sends (m : Manner) (clientAddress : Addr) (file : List UInt8) (io : LocalIO)
    (s : SendLoop) {dst : Addr} {p : List UInt8}
    (sent : .send dst p ∈ (sendTop m clientAddress (some file) io s).2) : SenderPacket file p :=
  Or.inl (sendTop_data m clientAddress file io s sent)

theorem sendStep_sends (m : Manner) (clientAddress : Addr) (file : List UInt8) (s : SendLoop)
    (e : Recv) (io : LocalIO) {dst : Addr} {p : List UInt8}
    (sent : .send dst p ∈ (sendStep m clientAddress (some file) s e io).2) :
    SenderPacket file p := by
  have illegal : .send dst p ∈ [illegalAck clientAddress] → SenderPacket file p := by
    intro h
    have hp := List.mem_singleton.mp h
    simp only [illegalAck, sendError, Effect.send.injEq] at hp
    exact Or.inr hp.2
  have consult : ¬ .send dst p ∈ examineOpcode ++ examineNumber := by
    simp [examineOpcode, examineNumber]
  cases e with
  | timeout => exact sendTop_sends m clientAddress file io _ sent
  | datagram src d =>
    have cap : ¬ received 4 d > maxPacketSize :=
      Nat.not_lt.mpr (Nat.le_trans (received_le 4 d) (by decide))
    simp only [sendStep, cap, if_false] at sent
    split_ifs at sent with mismatch answers last
    · rcases List.mem_append.mp sent with sent | sent
      · rcases List.mem_append.mp sent with sent | sent
        · exact False.elim (consult sent)
        · exact illegal sent
      · exact sendTop_sends m clientAddress file io _ sent
    · rcases List.mem_append.mp sent with sent | sent
      · exact False.elim (consult (by simpa using sent))
      · exact sendTop_sends m clientAddress file io _ sent
    · exact False.elim (consult sent)
    · rcases List.mem_append.mp sent with sent | sent
      · exact False.elim (consult sent)
      · exact sendTop_sends m clientAddress file io _ sent

/-- `handleReadRequest`, from the increment of the reader count to its decrement. -/
def readTop := sendTop readManner
def readStep := sendStep readManner

/-- `handleLSRequest`, once the listing is written. -/
def listTop := sendTop listManner
def listStep := sendStep listManner

end TFTP.Server
