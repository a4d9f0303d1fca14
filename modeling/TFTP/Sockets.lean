import TFTP.Library.Runs
import TFTP.Packet

/-!
# What a transfer loop sees and does

Between two receive calls a loop gets one event and produces a list of effects.
The effects record, next to the packets sent and the bytes stored, which header
bytes of the receive buffer were consulted and which payload length was used.
-/

namespace TFTP.Sockets

open Octets Packet

structure Addr where
  ip : UInt32
  port : UInt16
  deriving DecidableEq, Repr

/-- The outcome of one `recvfrom`: the five-second timeout or a datagram. -/
inductive Recv where
  | timeout
  | datagram (src : Addr) (bytes : List UInt8)
  deriving DecidableEq, Repr

/-- How the local calls of one turn end: `file.fail()` after a write, and a
negative result of `sendto` where the source tests it. -/
structure LocalIO where
  writeFails : Bool
  sendFails : Bool
  deriving DecidableEq, Repr

def LocalIO.ok : LocalIO := ⟨false, false⟩

/-- `examine i` reads byte `i` of the receive buffer as part of the opcode or of
the number; `payload len` uses `len` as array size and in `memset` and `memcpy`. -/
inductive Effect where
  | examine (i : Nat)
  | payload (len : Int)
  | write (bytes : List UInt8)
  | send (dst : Addr) (packet : List UInt8)
  deriving DecidableEq, Repr

def maxRetry : Nat := 5

def sendACK (dst : Addr) (blockNumber : UInt16) : Effect := .send dst (ackDatagram blockNumber)

def sendError (dst : Addr) (errorCode : UInt16) (errorMessage : String) : Effect :=
  .send dst (errorDatagram errorCode (text errorMessage))

/-- The packets sent to one address, in order. -/
def sentTo (dst : Addr) (effects : List Effect) : List (List UInt8) :=
  effects.filterMap fun
    | .send a p => if a = dst then some p else none
    | _ => none

/-- The byte strings stored, in order. -/
def writes (effects : List Effect) : List (List UInt8) :=
  effects.filterMap fun
    | .write b => some b
    | _ => none

theorem writes_append (xs ys : List Effect) : writes (xs ++ ys) = writes xs ++ writes ys :=
  List.filterMap_append

theorem mem_sentTo {dst : Addr} {p : List UInt8} {effects : List Effect} :
    p ∈ sentTo dst effects ↔ Effect.send dst p ∈ effects := by
  rw [sentTo, List.mem_filterMap]
  constructor
  · rintro ⟨e, he, hp⟩
    cases e with
    | send a q =>
      by_cases ha : a = dst
      · have hq : q = p := by simpa [ha] using hp
        exact ha ▸ hq ▸ he
      · simp [ha] at hp
    | _ => simp at hp
  · intro h
    exact ⟨.send dst p, h, by simp⟩

/-- An ERROR packet, whatever it complains about. -/
def Complaint (p : List UInt8) : Prop :=
  ∃ (errorCode : UInt16) (errorMsg : List UInt8), p = errorDatagram errorCode errorMsg

theorem sendError_complaint {dst a : Addr} {p : List UInt8} {errorCode : UInt16} {msg : String}
    (h : Effect.send dst p = sendError a errorCode msg) : Complaint p := by
  simp only [sendError, Effect.send.injEq] at h
  exact ⟨errorCode, text msg, h.2⟩

theorem complaint_header {p : List UInt8} (complaint : Complaint p) :
    ∃ errorCode rest, p = header 5 errorCode ++ rest := by
  obtain ⟨errorCode, errorMsg, rfl⟩ := complaint
  obtain ⟨rest, hr⟩ := errorDatagramIn_header (List.replicate (4 + errorMsg.length + 1) 0)
    errorCode errorMsg
  exact ⟨errorCode, rest, hr⟩

abbrev RecvBuffer := Buffer 516

/-- Opcode and number as seven of the loops decode them: masked, then swapped. -/
def opcodeAt (recievedBuffer : RecvBuffer) : UInt16 :=
  ntohs (loadMasked (recievedBuffer.get 0) (recievedBuffer.get 1))

def recvBlockNumberAt (recievedBuffer : RecvBuffer) : UInt16 :=
  ntohs (loadMasked (recievedBuffer.get 2) (recievedBuffer.get 3))

/-- `memcpy(recvData, recievedBuffer + 4, dataLength)`. -/
def recvDataAt (recievedBuffer : RecvBuffer) (dataLength : Nat) : List UInt8 :=
  (recievedBuffer.bytes.drop 4).take dataLength

def examineOpcode : List Effect := [.examine 0, .examine 1]

def examineNumber : List Effect := [.examine 2, .examine 3]

theorem mem_examine {e : Effect} (mem : e ∈ examineOpcode ++ examineNumber) :
    ∃ i, e = .examine i := by
  simp only [examineOpcode, examineNumber, List.cons_append, List.nil_append, List.mem_cons,
    List.not_mem_nil, or_false] at mem
  rcases mem with rfl | rfl | rfl | rfl <;> exact ⟨_, rfl⟩

/-- The first two bytes of a datagram in network order, where it has them. -/
def opcodeOf (d : List UInt8) : UInt16 := bigEndian (d.getD 0 0) (d.getD 1 0)

def numberOf (d : List UInt8) : UInt16 := bigEndian (d.getD 2 0) (d.getD 3 0)

theorem opcodeAt_fill (b : RecvBuffer) {d : List UInt8} (h : 2 ≤ d.length) :
    opcodeAt (b.fill d) = opcodeOf d := by
  have h0 : 0 < d.length := by omega
  have h1 : 1 < d.length := by omega
  have b0 : (b.fill d).get 0 = d[0] := b.fill_get_lt d 0 h0
  have b1 : (b.fill d).get 1 = d[1] := b.fill_get_lt d 1 h1
  rw [opcodeAt, ntohs_loadMasked, b0, b1, opcodeOf, List.getD_eq_getElem _ _ h0,
    List.getD_eq_getElem _ _ h1]

theorem recvBlockNumberAt_fill (b : RecvBuffer) {d : List UInt8} (h : 4 ≤ d.length) :
    recvBlockNumberAt (b.fill d) = numberOf d := by
  have h2 : 2 < d.length := by omega
  have h3 : 3 < d.length := by omega
  have b2 : (b.fill d).get 2 = d[2] := b.fill_get_lt d 2 h2
  have b3 : (b.fill d).get 3 = d[3] := b.fill_get_lt d 3 h3
  rw [recvBlockNumberAt, ntohs_loadMasked, b2, b3, numberOf, List.getD_eq_getElem _ _ h2,
    List.getD_eq_getElem _ _ h3]

/-- A datagram that fits the buffer comes out of it whole behind its header. -/
theorem recvDataAt_fill (b : RecvBuffer) {d : List UInt8} (h4 : 4 ≤ d.length)
    (fits : d.length ≤ 516) : recvDataAt (b.fill d) (d.length - 4) = d.drop 4 := by
  rw [recvDataAt, b.fill_bytes d fits, List.drop_append_of_le_length h4]
  exact List.take_left' (by simp)

/-- The payload of a datagram does not depend on what the buffer held before. -/
theorem recvDataAt_received (b : RecvBuffer) {d : List UInt8} (h4 : 4 ≤ d.length) :
    recvDataAt (b.fill d) (received 516 d - 4) = (d.take 516).drop 4 := by
  have front : 4 ≤ (d.take 516).length := by
    rw [List.length_take]
    omega
  rw [recvDataAt, Buffer.fill, List.drop_append_of_le_length front]
  exact List.take_left' (by rw [List.length_drop, List.length_take, received])

@[simp] theorem opcodeOf_header (opcode : UInt8) (number : UInt16) (rest : List UInt8) :
    opcodeOf (header opcode number ++ rest) = bigEndian 0 opcode := rfl

@[simp] theorem numberOf_header (opcode : UInt8) (number : UInt16) (rest : List UInt8) :
    numberOf (header opcode number ++ rest) = number := by
  change bigEndian (hiByte number) (loByte number) = number
  exact bigEndian_bytes number

@[simp] theorem opcodeOf_ack (number : UInt16) : opcodeOf (ackDatagram number) = opcodeAck := by
  rw [ackDatagram_eq, ← List.append_nil (header 4 number), opcodeOf_header]
  decide

@[simp] theorem numberOf_ack (number : UInt16) : numberOf (ackDatagram number) = number := by
  rw [ackDatagram_eq, ← List.append_nil (header 4 number), numberOf_header]

@[simp] theorem ackDatagram_length (number : UInt16) : (ackDatagram number).length = 4 := by
  rw [ackDatagram_eq, header_length]

/-- Every receiver reads a complaint as an ERROR packet. -/
theorem complaint_reads {p : List UInt8} (complaint : Complaint p) :
    2 ≤ p.length ∧ opcodeOf p = opcodeError := by
  obtain ⟨errorCode, rest, rfl⟩ := complaint_header complaint
  rw [opcodeOf_header, List.length_append, header_length]
  exact ⟨by omega, by decide⟩

/-- An ERROR packet is no acknowledgement. -/
theorem sendError_ne_sendACK (a dst : Addr) (errorCode blockNumber : UInt16) (msg : String) :
    sendError a errorCode msg ≠ sendACK dst blockNumber := by
  intro same
  have opcode := (complaint_reads (sendError_complaint same.symm)).2
  rw [opcodeOf_ack] at opcode
  exact absurd opcode (by decide)

theorem received_header (opcode : UInt8) (number : UInt16) {rest : List UInt8}
    (fits : rest.length ≤ 512) :
    received 516 (header opcode number ++ rest) = rest.length + 4 := by
  rw [received, List.length_append, header_length]
  omega

/-- A payload of at most one block comes out of the buffer as it went into the packet. -/
theorem recvDataAt_header (b : RecvBuffer) (opcode : UInt8) (number : UInt16)
    {rest : List UInt8} (fits : rest.length ≤ 512) :
    recvDataAt (b.fill (header opcode number ++ rest))
      (received 516 (header opcode number ++ rest) - 4) = rest := by
  have size : (header opcode number ++ rest).length = rest.length + 4 := by simp [Nat.add_comm]
  rw [received_header opcode number fits, ← size, recvDataAt_fill b (by omega) (by omega)]
  exact List.drop_left' (header_length opcode number)

/-- The bytes stored and the DATA and ACK packets sent. -/
def shows : Effect → Bool
  | .write _ => true
  | .send _ p => decide (opcodeOf p = opcodeData ∨ opcodeOf p = opcodeAck)
  | _ => false

theorem shows_sendError (dst : Addr) (errorCode : UInt16) (msg : String) :
    shows (sendError dst errorCode msg) = false := by
  have opcode := (complaint_reads ⟨errorCode, text msg, rfl⟩).2
  apply decide_eq_false
  rw [opcode]
  decide

def timeouts {α : Type} (es : List (Recv × α)) : Nat := es.countP fun e => e.1 = .timeout

theorem timeouts_timeout {α : Type} (io : α) (es : List (Recv × α)) :
    timeouts ((.timeout, io) :: es) = timeouts es + 1 :=
  List.countP_cons_of_pos (by simp)

theorem timeouts_datagram {α : Type} (src : Addr) (d : List UInt8) (io : α)
    (es : List (Recv × α)) : timeouts ((.datagram src d, io) :: es) = timeouts es :=
  List.countP_cons_of_neg (by simp)

/-- A sixteen-bit counter that counts up from 1 and is not 0 has not come round. -/
theorem counter_value {counter : UInt16} {k : Nat} (counts : counter = UInt16.ofNat (k + 1))
    (bounded : k < 65536) (pos : counter ≠ 0) : k + 1 < 65536 ∧ counter.toNat = k + 1 := by
  have small : k + 1 < 65536 := by
    by_contra wrapped
    have last : k + 1 = 65536 := by omega
    rw [counts, last] at pos
    exact pos rfl
  refine ⟨small, ?_⟩
  rw [counts, UInt16.toNat_ofNat']
  exact Nat.mod_eq_of_lt small

end TFTP.Sockets
