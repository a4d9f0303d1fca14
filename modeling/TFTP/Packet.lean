import TFTP.Library.Octets
import TFTP.Library.Blocks

/-!
# Packet builders and file blocks

The builders write into an array the caller supplies, so each one takes the bytes
already in it and returns the bytes after the stores. Numbers go out in network
order. A block is read by seeking to `(blockNumber - 1) * 512` in signed
arithmetic: block 0 asks for a negative offset and reads nothing.
-/

namespace TFTP.Packet

open Octets

def opcodeRRQ : UInt16 := 1
def opcodeWRQ : UInt16 := 2
def opcodeData : UInt16 := 3
def opcodeAck : UInt16 := 4
def opcodeError : UInt16 := 5
def opcodeDelete : UInt16 := 6
def opcodeLS : UInt16 := 7
def maxPacketSize : Nat := 516
def ackOk : UInt16 := 0

def errorNotDefined : UInt16 := 0
def errorFileNotFound : UInt16 := 1
def errorAccessViolation : UInt16 := 2
def errorDiskFull : UInt16 := 3
def errorIllegalTftpOperation : UInt16 := 4
def errorUnknownTid : UInt16 := 5
def errorFileAlreadyExists : UInt16 := 6

/-- Store `bytes` in the array from index `i` on. -/
def store (packet : List UInt8) (i : Nat) (bytes : List UInt8) : List UInt8 :=
  packet.take i ++ bytes ++ packet.drop (i + bytes.length)

/-- The four bytes of a header, as every builder below stores them. -/
def header (opcode : UInt8) (number : UInt16) : List UInt8 :=
  [0, opcode, hiByte number, loByte number]

def createDataPacket (packet : List UInt8) (blockNumber : UInt16) (data : List UInt8)
    (dataSize : Nat) : List UInt8 :=
  store (store packet 0 (header 3 blockNumber)) 4 (data.take dataSize)

def createACKPacket (packet : List UInt8) (blockNumber : UInt16) : List UInt8 :=
  store packet 0 (header 4 blockNumber)

/-- The characters the copy loop stores: it breaks right behind a NUL. -/
def copiedText : List UInt8 → List UInt8
  | [] => []
  | c :: cs => if c = 0 then [c] else c :: copiedText cs

def createErrorPacket (packet : List UInt8) (errorCode : UInt16) (errorMsg : List UInt8) :
    List UInt8 :=
  store (store packet 0 (header 5 errorCode)) 4 (copiedText errorMsg)

/-- The datagram a sender loop hands to `sendto`: a zeroed 516-byte array, the
packet built in it, and `dataSize + 4` bytes of the result. -/
def dataDatagram (blockNumber : UInt16) (data : List UInt8) : List UInt8 :=
  (createDataPacket (List.replicate 516 0) blockNumber data data.length).take (data.length + 4)

def ackDatagram (blockNumber : UInt16) : List UInt8 :=
  createACKPacket (List.replicate 4 0) blockNumber

/-- `sendError` of either party. `array` is what its stack array of
`4 + errorMsg.size() + 1` bytes holds before the stores. -/
def errorDatagramIn (array : List UInt8) (errorCode : UInt16) (errorMsg : List UInt8) :
    List UInt8 :=
  store (createErrorPacket array errorCode errorMsg) (4 + errorMsg.length) [0]

def errorDatagram (errorCode : UInt16) (errorMsg : List UInt8) : List UInt8 :=
  errorDatagramIn (List.replicate (4 + errorMsg.length + 1) 0) errorCode errorMsg

/-- `TFTPPacket::readDataBlock`: the bytes read, whose number is `dataSize`. A file
that cannot be opened and a failed seek both read nothing. -/
def readDataBlock (file : Option (List UInt8)) (blockNumber : UInt16) : List UInt8 :=
  match file with
  | none => []
  | some bytes =>
    let offset : Int := ((blockNumber.toNat : Int) - 1) * 512
    if offset < 0 then [] else (bytes.drop offset.toNat).take 512

theorem store_zero (packet bytes : List UInt8) :
    store packet 0 bytes = bytes ++ packet.drop bytes.length := by
  simp [store]

theorem store_behind (front rest bytes : List UInt8) :
    store (front ++ rest) front.length bytes = front ++ (bytes ++ rest.drop bytes.length) := by
  simp [store, List.drop_append]

@[simp] theorem header_length (opcode : UInt8) (number : UInt16) :
    (header opcode number).length = 4 := rfl

theorem store_header_store (packet : List UInt8) (opcode : UInt8) (number : UInt16)
    (bytes : List UInt8) :
    store (store packet 0 (header opcode number)) 4 bytes =
      header opcode number ++ (bytes ++ packet.drop (4 + bytes.length)) := by
  rw [store_zero, header_length]
  have behind := store_behind (header opcode number) (packet.drop 4) bytes
  rwa [header_length, List.drop_drop] at behind

theorem dataDatagram_eq (blockNumber : UInt16) (data : List UInt8) :
    dataDatagram blockNumber data = header 3 blockNumber ++ data := by
  rw [dataDatagram, createDataPacket, store_header_store, List.take_length, ← List.append_assoc]
  exact List.take_left' (by simp [Nat.add_comm])

theorem ackDatagram_eq (blockNumber : UInt16) : ackDatagram blockNumber = header 4 blockNumber := by
  rw [ackDatagram, createACKPacket, store_zero]
  rfl

theorem copiedText_eq {s : List UInt8} (h : 0 ∉ s) : copiedText s = s := by
  induction s with
  | nil => rfl
  | cons c cs ih =>
    have hc : c ≠ 0 := fun e => h (by simp [e])
    simp [copiedText, hc, ih (fun m => h (List.mem_cons_of_mem c m))]

/-- A text with no NUL goes out whole, whatever the array held. -/
theorem errorDatagramIn_eq {array errorMsg : List UInt8} (errorCode : UInt16)
    (size : array.length = 4 + errorMsg.length + 1) (clean : 0 ∉ errorMsg) :
    errorDatagramIn array errorCode errorMsg = header 5 errorCode ++ (errorMsg ++ [0]) := by
  rw [errorDatagramIn, createErrorPacket, store_header_store, copiedText_eq clean,
    ← List.append_assoc]
  have front : (header 5 errorCode ++ errorMsg).length = 4 + errorMsg.length := by simp
  have last := store_behind (header 5 errorCode ++ errorMsg)
    (array.drop (4 + errorMsg.length)) [0]
  rw [front] at last
  rw [last, List.drop_drop, List.drop_of_length_le (by simp [size]), List.append_nil,
    List.append_assoc]

/-- The header is there for every text, one with a NUL in it included. -/
theorem errorDatagramIn_header (array : List UInt8) (errorCode : UInt16) (errorMsg : List UInt8) :
    ∃ rest, errorDatagramIn array errorCode errorMsg = header 5 errorCode ++ rest := by
  rw [errorDatagramIn, createErrorPacket, store_header_store, store,
    ← header_length 5 errorCode, List.take_length_add_append, List.append_assoc, List.append_assoc]
  exact ⟨_, rfl⟩

theorem errorDatagram_eq {errorMsg : List UInt8} (errorCode : UInt16) (clean : 0 ∉ errorMsg) :
    errorDatagram errorCode errorMsg = header 5 errorCode ++ (errorMsg ++ [0]) :=
  errorDatagramIn_eq errorCode List.length_replicate clean

/-- Block `b` of a file, counted from 1, as a slice of its content. -/
def block (file : List UInt8) (b : Nat) : List UInt8 := Blocks.nth 512 file b

theorem block_length_le (file : List UInt8) (b : Nat) : (block file b).length ≤ 512 :=
  Blocks.nth_length_le 512 file b

theorem block_short_iff (file : List UInt8) {b : Nat} (h : 1 ≤ b) :
    (block file b).length < 512 ↔ file.length < b * 512 := by
  rw [block, Blocks.nth_length]
  omega

theorem block_nonempty_iff (file : List UInt8) (b : Nat) :
    block file b ≠ [] ↔ (b - 1) * 512 < file.length := by
  rw [← List.length_pos_iff, block, Blocks.nth_length]
  omega

theorem readDataBlock_zero (file : Option (List UInt8)) : readDataBlock file 0 = [] := by
  cases file <;> rfl

theorem readDataBlock_pos (file : List UInt8) {blockNumber : UInt16} (h : blockNumber ≠ 0) :
    readDataBlock (some file) blockNumber = block file blockNumber.toNat := by
  have pos : blockNumber.toNat ≠ 0 := fun e => h (UInt16.toNat_inj.mp e)
  have nonneg : ¬ (((blockNumber.toNat : Int) - 1) * 512 < 0) := by omega
  have offset : (((blockNumber.toNat : Int) - 1) * 512).toNat = (blockNumber.toNat - 1) * 512 := by
    omega
  simp only [readDataBlock, nonneg, if_false, offset, block, Blocks.nth]

end TFTP.Packet
