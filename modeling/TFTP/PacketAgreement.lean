import TFTP.ServerLoops
import TFTP.ClientLoops

/-!
# Builders against parsers

Every receive loop decodes the same four-byte header by hand. Here each parser is
put behind `recvfrom` into a buffer that may still hold anything, and compared with
the arguments the builder was given. The loops that mask their chars agree with the
builders on every number; the two acknowledgement checks of the server do not, and the
client's list loop does not look behind the opcode of an ERROR.
-/

namespace TFTP.PacketAgreement

open Octets Packet Sockets Server

/-- The places of the sources that decode a header. -/
inductive Party where
  | clientRRQ
  | clientWRQ
  | clientDELETE
  | clientLS
  | serverWrite
  | serverReadAck
  | serverListAck
  deriving DecidableEq, Repr

/-- A packet, by the arguments of the builder that made it. -/
inductive Built where
  | data (blockNumber : UInt16) (payload : List UInt8)
  | ack (blockNumber : UInt16)
  | error (errorCode : UInt16) (errorMsg : List UInt8)
  deriving DecidableEq, Repr

def Built.payload : Built → List UInt8
  | .data _ payload => payload
  | .ack _ => []
  | .error _ errorMsg => errorMsg

/-- Which party can be sent which packet. -/
def Receives : Party → Built → Prop
  | .clientRRQ, .data _ _ | .clientLS, .data _ _ | .serverWrite, .data _ _ => True
  | .clientWRQ, .ack _ | .clientDELETE, .ack _ => True
  | .serverReadAck, .ack _ | .serverListAck, .ack _ => True
  | .clientRRQ, .error _ _ | .clientWRQ, .error _ _ => True
  | .clientDELETE, .error _ _ | .clientLS, .error _ _ => True
  | _, _ => False

/-- What reaches the wire. The array `sendError` writes into is not cleared, so an
ERROR is any datagram it can become. -/
def OnWire : Built → List UInt8 → Prop
  | .data blockNumber payload, d => d = dataDatagram blockNumber payload
  | .ack blockNumber, d => d = ackDatagram blockNumber
  | .error errorCode errorMsg, d => ∃ array : List UInt8,
      array.length = 4 + errorMsg.length + 1 ∧ d = errorDatagramIn array errorCode errorMsg

/-- A masked header read out of a 516-byte buffer is the given one. -/
def ReadsHeader (opcode number : UInt16) (b : RecvBuffer) (d : List UInt8) : Prop :=
  opcodeAt (b.fill d) = opcode ∧ recvBlockNumberAt (b.fill d) = number

/-- What the list loop decodes of a datagram. It leaves at any opcode but DATA's, before it
has looked at the number or at what is behind it. -/
def listReads (b : RecvBuffer) (d : List UInt8) : UInt16 × Option (UInt16 × List UInt8) :=
  let opcode := opcodeAt (b.fill d)
  if opcode ≠ opcodeData then (opcode, none)
  else
    (opcode, some (recvBlockNumberAt (b.fill d), recvDataAt (b.fill d) (received 516 d - 4)))

/-- The parser of a party, run on a datagram, gives back what the builder was given.
The text of an ERROR is read as the C string at `recvData`. -/
def Parses (p : Party) (x : Built) (d : List UInt8) : Prop :=
  match p, x with
  | .serverReadAck, .ack n | .serverListAck, .ack n =>
    ∀ b : Buffer 4, ackOpcodeAt (b.fill d) = opcodeAck ∧ ackBlockNumberAt (b.fill d) = n
  | .clientLS, .data n payload =>
    ∀ b : RecvBuffer, listReads b d = (opcodeData, some (n, payload))
  | .clientLS, .error n errorMsg => ∀ b : RecvBuffer, ∃ recvData,
      listReads b d = (opcodeError, some (n, recvData)) ∧ cString recvData = some errorMsg
  | _, .data n payload => ∀ b : RecvBuffer, ReadsHeader opcodeData n b d ∧
      recvDataAt (b.fill d) (received 516 d - 4) = payload
  | _, .ack n => ∀ b : RecvBuffer, ReadsHeader opcodeAck n b d
  | _, .error n errorMsg => ∀ b : RecvBuffer, ReadsHeader opcodeError n b d ∧
      cString (recvDataAt (b.fill d) (received 516 d - 4)) = some errorMsg

def Recovers (p : Party) (x : Built) : Prop := ∀ d, OnWire x d → Parses p x d

/-- Acknowledgements read without masks need a low byte without sign bit, or a high
byte that is all ones already; texts need to be C strings that fit the datagram. The list
loop decodes no ERROR. -/
def Clean : Party → Built → Prop
  | .serverReadAck, .ack n | .serverListAck, .ack n => n.toNat % 256 < 128 ∨ 0xFF00 ≤ n.toNat
  | .clientLS, .error _ _ => False
  | _, .error _ errorMsg => 0 ∉ errorMsg ∧ errorMsg.length < 512
  | _, _ => True

theorem readsHeader_iff (opcode : UInt8) (number : UInt16) (b : RecvBuffer) (rest : List UInt8) :
    ReadsHeader (bigEndian 0 opcode) number b (header opcode number ++ rest) := by
  have h4 : 4 ≤ (header opcode number ++ rest).length := by simp
  have h2 : 2 ≤ (header opcode number ++ rest).length := by omega
  exact ⟨by rw [opcodeAt_fill b h2, opcodeOf_header],
    by rw [recvBlockNumberAt_fill b h4, numberOf_header]⟩

theorem data_recovered (p : Party) (n : UInt16) (payload : List UInt8)
    (receives : Receives p (.data n payload)) (size : payload.length ≤ 512) :
    Recovers p (.data n payload) := by
  intro d wire
  have hd : d = header 3 n ++ payload := wire.trans (dataDatagram_eq n payload)
  subst hd
  have reads : ∀ b : RecvBuffer, ReadsHeader opcodeData n b (header 3 n ++ payload) ∧
      recvDataAt (b.fill (header 3 n ++ payload)) (received 516 (header 3 n ++ payload) - 4) =
        payload :=
    fun b => ⟨readsHeader_iff 3 n b payload, recvDataAt_header b 3 n size⟩
  cases p with
  | clientRRQ | serverWrite => exact reads
  | clientLS =>
    intro b
    obtain ⟨⟨opcode, number⟩, data⟩ := reads b
    rw [listReads, opcode, number, data, if_neg (not_not.mpr rfl)]
  | _ => exact False.elim receives

theorem ack_recovered (p : Party) (n : UInt16) (masked : p = .clientWRQ ∨ p = .clientDELETE) :
    Recovers p (.ack n) := by
  intro d wire
  have hd : d = header 4 n ++ [] := by rw [List.append_nil]; exact wire.trans (ackDatagram_eq n)
  subst hd
  rcases masked with rfl | rfl
  · exact fun b => readsHeader_iff 4 n b []
  · exact fun b => readsHeader_iff 4 n b []

/-- The unmasked check reads a fresh header, but sign-extends its low bytes. -/
theorem ackCheck_fill (b : Buffer 4) (n : UInt16) :
    ackOpcodeAt (b.fill (header 4 n)) = 4 ∧
      ackBlockNumberAt (b.fill (header 4 n)) = loadSigned (hiByte n) (loByte n) := by
  have byte : ∀ i : Fin 4, (b.fill (header 4 n)).get i = (header 4 n)[i.val] :=
    fun i => b.fill_get_lt (header 4 n) i i.isLt
  constructor
  · rw [ackOpcodeAt, byte 0, byte 1]
    change loadSigned 0 4 = 4
    decide
  · rw [ackBlockNumberAt, byte 2, byte 3]
    rfl

theorem ackCheck_recovered_iff (p : Party) (n : UInt16)
    (check : p = .serverReadAck ∨ p = .serverListAck) :
    Recovers p (.ack n) ↔ n.toNat % 256 < 128 ∨ 0xFF00 ≤ n.toNat := by
  have reads : Recovers p (.ack n) ↔ ∀ b : Buffer 4,
      ackOpcodeAt (b.fill (header 4 n)) = 4 ∧ ackBlockNumberAt (b.fill (header 4 n)) = n := by
    rw [← ackDatagram_eq n]
    rcases check with rfl | rfl
    · exact ⟨fun h => h _ rfl, fun h d wire => wire ▸ h⟩
    · exact ⟨fun h => h _ rfl, fun h d wire => wire ▸ h⟩
  rw [reads, ← loadSigned_bytes_iff]
  constructor
  · intro h
    exact (ackCheck_fill (Buffer.zero 4) n).2.symm.trans (h (Buffer.zero 4)).2
  · intro h b
    exact ⟨(ackCheck_fill b n).1, (ackCheck_fill b n).2.trans h⟩

/-- The text comes back unless it has a NUL of its own or no room for the closing one. -/
theorem error_text_iff (n : UInt16) (errorMsg : List UInt8) (size : errorMsg.length ≤ 512) :
    (∀ d, OnWire (.error n errorMsg) d → ∀ b : RecvBuffer, ReadsHeader opcodeError n b d ∧
      cString (recvDataAt (b.fill d) (received 516 d - 4)) = some errorMsg) ↔
      0 ∉ errorMsg ∧ errorMsg.length < 512 := by
  constructor
  · intro h
    have wire : OnWire (.error n errorMsg) (errorDatagram n errorMsg) :=
      ⟨_, List.length_replicate, rfl⟩
    have back := (h _ wire (Buffer.zero 516)).2
    have clean := cString_no_nul back
    refine ⟨clean, ?_⟩
    by_contra long
    have full : errorMsg.length = 512 := by omega
    rw [errorDatagram_eq n clean] at back
    have whole : received 516 (header 5 n ++ (errorMsg ++ [0])) - 4 = errorMsg.length := by
      simp [received, full]
    have cut : ((Buffer.zero 516).fill (header 5 n ++ (errorMsg ++ [0]))).bytes =
        header 5 n ++ errorMsg := by
      rw [Buffer.fill_bytes_cut _ _ (by simp [full]), ← List.append_assoc,
        List.take_left' (by simp [full])]
    have data : recvDataAt ((Buffer.zero 516).fill (header 5 n ++ (errorMsg ++ [0])))
        errorMsg.length = errorMsg := by
      rw [recvDataAt, cut]
      exact List.take_length
    rw [whole, data, cString_none clean] at back
    cases back
  · rintro ⟨clean, short⟩ d ⟨array, len, rfl⟩ b
    rw [errorDatagramIn_eq n len clean]
    refine ⟨readsHeader_iff 5 n b (errorMsg ++ [0]), ?_⟩
    rw [recvDataAt_header b 5 n (by simp; omega)]
    exact cString_append_nul errorMsg [] clean

theorem listReads_error {b : RecvBuffer} {d : List UInt8}
    (opcode : opcodeAt (b.fill d) = opcodeError) : listReads b d = (opcodeError, none) := by
  have other : opcodeError ≠ opcodeData := by decide
  rw [listReads, opcode, if_pos other]

/-- No ERROR comes back from the list loop, whatever its number and its text are. -/
theorem error_unread (n : UInt16) (errorMsg : List UInt8) :
    ¬ Recovers .clientLS (.error n errorMsg) := by
  intro recovers
  obtain ⟨rest, hrest⟩ :=
    errorDatagramIn_header (List.replicate (4 + errorMsg.length + 1) 0) n errorMsg
  have wire : OnWire (.error n errorMsg) (header 5 n ++ rest) :=
    ⟨_, List.length_replicate, hrest.symm⟩
  obtain ⟨recvData, reads, _⟩ := recovers _ wire (Buffer.zero 516)
  rw [listReads_error (readsHeader_iff 5 n (Buffer.zero 516) rest).1] at reads
  cases reads

/-- Exactly which packets every parser gives back as they were built. -/
theorem recovers_iff_clean (p : Party) (x : Built) (receives : Receives p x)
    (size : x.payload.length ≤ 512) : Recovers p x ↔ Clean p x := by
  cases x with
  | data n payload =>
    have back := data_recovered p n payload receives size
    cases p with
    | clientRRQ | clientLS | serverWrite => exact ⟨fun _ => trivial, fun _ => back⟩
    | _ => exact False.elim receives
  | ack n =>
    cases p with
    | clientWRQ => exact ⟨fun _ => trivial, fun _ => ack_recovered _ n (.inl rfl)⟩
    | clientDELETE => exact ⟨fun _ => trivial, fun _ => ack_recovered _ n (.inr rfl)⟩
    | serverReadAck => exact ackCheck_recovered_iff _ n (.inl rfl)
    | serverListAck => exact ackCheck_recovered_iff _ n (.inr rfl)
    | _ => exact False.elim receives
  | error n errorMsg =>
    cases p with
    | clientRRQ | clientWRQ | clientDELETE => exact error_text_iff n errorMsg size
    | clientLS => exact iff_of_false (error_unread n errorMsg) id
    | _ => exact False.elim receives

theorem recovers_iff_clean_upload_block :
    Recovers .serverWrite (.data 0x0180 [0xFF, 0x00]) ↔
      Clean .serverWrite (.data 0x0180 [0xFF, 0x00]) :=
  recovers_iff_clean .serverWrite (.data 0x0180 [0xFF, 0x00]) trivial (by decide)

/-- The acknowledgement of block 128 reaches the reader's check as number 0xFF80. -/
theorem ack_128_misread :
    Receives .serverReadAck (.ack 128) ∧ (Built.ack 128).payload.length ≤ 512 ∧
      ackBlockNumberAt ((Buffer.zero 4).fill (ackDatagram 128)) = 0xFF80 ∧
      ¬ Recovers .serverReadAck (.ack 128) := by
  refine ⟨trivial, by decide, by decide, ?_⟩
  rw [ackCheck_recovered_iff _ _ (.inl rfl)]
  decide

end TFTP.PacketAgreement
