import Mathlib.Data.List.DropRight
import TFTP.ServerRequests

/-!
# Requests on their way

The client builds a request in an array of just its size; `start` takes it apart in a
buffer of its own, which it clears for every datagram. The filename and the mode are read
as C strings from where the datagram put them.
-/

namespace TFTP.Requests

open Octets Packet Sockets FileSystem Server

/-- The copy loops break right behind a NUL. The opcode is stored by the callers. -/
def createRequestPacket (packet filename mode : List UInt8) : List UInt8 :=
  let index := 2 + (copiedText filename).length
  let packet := store (store packet 2 (copiedText filename)) index [0]
  let packet := store packet (index + 1) (copiedText mode)
  store packet (index + 1 + (copiedText mode).length) [0]

def createRRQPacket (packet filename mode : List UInt8) : List UInt8 :=
  createRequestPacket (store packet 0 [0, 1]) filename mode

def createWRQPacket (packet filename mode : List UInt8) : List UInt8 :=
  createRequestPacket (store packet 0 [0, 2]) filename mode

def octet : List UInt8 := text "octet"

def createDeletePacket (packet filename : List UInt8) : List UInt8 :=
  createRequestPacket (store packet 0 [0, 6]) filename octet

def createLSPacket (packet : List UInt8) : List UInt8 := store packet 0 [0, 7, 0]

/-- The array of a request: with no NUL in the filename, all of it is stored over. -/
def requestArray (filename : Name) : List UInt8 :=
  List.replicate (4 + filename.length + octet.length) 0

/-- What `sendRRQPacket`, `sendWRQPacket`, `sendDELETEPacket` and `sendLSPacket` send. -/
def requestDatagram : Request → List UInt8
  | .read filename => createRRQPacket (requestArray filename) filename octet
  | .write filename => createWRQPacket (requestArray filename) filename octet
  | .delete filename => createDeletePacket (requestArray filename) filename
  | .list => createLSPacket (List.replicate 3 0)

/-- The name up to its last dot, with the ending of the compressed file. -/
def compressedName (prevFilename : Name) : Name :=
  (if 46 ∈ prevFilename then (prevFilename.rdropWhile (· ≠ 46)).dropLast else prevFilename) ++
    text "compress.bin"

/-- `std::tolower` on one char. -/
def tolower (c : UInt8) : UInt8 := if 65 ≤ c ∧ c ≤ 90 then c + 32 else c

/-- What `start` makes of a datagram: a thread, or an ERROR packet. A request with a wrong
mode has been given a client number before it is refused. A C string that does not end
inside the buffer would be read on behind it. -/
inductive Heard where
  | starts (r : Request)
  | wrongMode
  | refused
  | overread
  deriving DecidableEq

def heardOpcode (buffer : Buffer 1024) : UInt16 := ntohs (loadMasked (buffer.get 0) (buffer.get 1))

def heard (d : List UInt8) : Heard :=
  if received 1024 d > 516 then .refused
  else
    let buffer := (Buffer.zero 1024).fill d
    let opcode := heardOpcode buffer
    if opcode = opcodeLS then .starts .list
    else if opcode = opcodeRRQ ∨ opcode = opcodeWRQ ∨ opcode = opcodeDelete then
      match cString (buffer.bytes.drop 2) with
      | none => .overread
      | some filename =>
        match cString (buffer.bytes.drop (2 + filename.length + 1)) with
        | none => .overread
        | some mode =>
          if mode.map tolower ≠ octet then .wrongMode
          else if opcode = opcodeRRQ then .starts (.read filename)
          else if opcode = opcodeWRQ then .starts (.write filename)
          else .starts (.delete filename)
    else .refused

/-- Behind a short datagram the buffer holds zeros. -/
theorem heardOpcode_fill (d : List UInt8) :
    heardOpcode ((Buffer.zero 1024).fill d) = opcodeOf d := by
  have byte : ∀ i : Fin 1024, ((Buffer.zero 1024).fill d).get i = d.getD i.val 0 := by
    intro i
    by_cases lt : i.val < d.length
    · rw [Buffer.fill_get_lt _ d i lt, List.getD_eq_getElem _ _ lt]
    · rw [Buffer.fill_get_ge _ d i (Nat.le_of_not_lt lt),
        List.getD_eq_default _ _ (Nat.le_of_not_lt lt)]
      simp only [Buffer.get, Buffer.zero, List.get_eq_getElem, List.getElem_replicate]
  rw [heardOpcode, ntohs_loadMasked, byte, byte]
  rfl

/-- What is no request starts no thread. -/
theorem heard_other {d : List UInt8}
    (other : opcodeOf d ≠ opcodeLS ∧ opcodeOf d ≠ opcodeRRQ ∧ opcodeOf d ≠ opcodeWRQ ∧
      opcodeOf d ≠ opcodeDelete) : heard d = .refused := by
  unfold heard
  split_ifs with oversized
  · rfl
  · simp only [heardOpcode_fill, other, or_self, if_false]

/-- The filename ends at the first NUL, the mode at the one behind it; a datagram that ends
before is closed by the zeros of the buffer. -/
theorem heard_request {d : List UInt8} (fits : d.length ≤ 516) {filename mode : List UInt8}
    (request : opcodeOf d = opcodeRRQ ∨ opcodeOf d = opcodeWRQ ∨ opcodeOf d = opcodeDelete)
    (first : filename = (d.drop 2).takeWhile fun c => c ≠ 0)
    (second : mode = ((d.drop 2).drop (filename.length + 1)).takeWhile fun c => c ≠ 0) :
    heard d = if mode.map tolower ≠ octet then .wrongMode
      else if opcodeOf d = opcodeRRQ then .starts (.read filename)
      else if opcodeOf d = opcodeWRQ then .starts (.write filename)
      else .starts (.delete filename) := by
  have sized : 2 ≤ d.length := by
    by_contra short
    have missing : d.getD 1 0 = 0 := List.getD_eq_default _ _ (by omega)
    have low : (opcodeOf d).toNat % 256 = 0 := by
      have zero : (0 : UInt8).toNat = 0 := rfl
      rw [opcodeOf, missing, bigEndian_toNat]
      omega
    have values : opcodeRRQ.toNat = 1 ∧ opcodeWRQ.toNat = 2 ∧ opcodeDelete.toNat = 6 :=
      ⟨rfl, rfl, rfl⟩
    rcases request with op | op | op <;>
    · rw [op] at low
      omega
  have small : ¬ received 1024 d > 516 := by
    rw [received]
    omega
  have other : opcodeOf d ≠ opcodeLS := by
    rcases request with op | op | op <;> rw [op] <;> decide
  have short : filename.length ≤ (d.drop 2).length := by
    rw [first]
    exact (List.takeWhile_prefix _).length_le
  have behind : ∀ n, n ≤ 516 → ∃ zeros, ((Buffer.zero 1024).fill d).bytes.drop (2 + n) =
      (d.drop 2).drop n ++ 0 :: zeros := by
    intro n le
    refine ⟨List.replicate (1024 - d.length - (n - (d.drop 2).length) - 1) 0, ?_⟩
    rw [Buffer.fill_bytes _ d (by omega), ← List.drop_drop, List.drop_append_of_le_length sized,
      List.drop_append, ← List.replicate_succ]
    simp only [Buffer.zero, List.drop_replicate, List.length_drop]
    congr 2
    omega
  have name : cString (((Buffer.zero 1024).fill d).bytes.drop 2) = some filename := by
    obtain ⟨zeros, bytes⟩ := behind 0 (by omega)
    rw [bytes, cString_before_nul, List.drop_zero, first]
  have transfer : cString (((Buffer.zero 1024).fill d).bytes.drop (2 + filename.length + 1)) =
      some mode := by
    rw [List.length_drop] at short
    obtain ⟨zeros, bytes⟩ := behind (filename.length + 1) (by omega)
    rw [Nat.add_assoc, bytes, cString_before_nul, second]
  simp only [heard, small, if_false, heardOpcode_fill, other, request, if_true, name, transfer]

theorem store_at {front rest bytes : List UInt8} {i : Nat} (here : front.length = i) :
    store (front ++ rest) i bytes = (front ++ bytes) ++ rest.drop bytes.length := by
  rw [← here, store_behind, List.append_assoc]

theorem createRequestPacket_eq (front rest filename mode : List UInt8) (two : front.length = 2) :
    createRequestPacket (front ++ rest) filename mode =
      front ++ (copiedText filename ++ 0 :: (copiedText mode ++ 0 ::
        rest.drop ((copiedText filename).length + (copiedText mode).length + 2))) := by
  rw [createRequestPacket, store_at two, store_at (by simp [two]),
    store_at (by simp [two, Nat.add_assoc]), store_at (by simp [two]; omega)]
  simp only [List.append_assoc, List.cons_append, List.nil_append, List.drop_drop,
    List.length_singleton]
  congr 6
  omega

/-- What the copy loop leaves of a name with a NUL ends at that NUL. -/
theorem copiedText_nul {s : List UInt8} (h : 0 ∈ s) : ∃ t, 0 ∉ t ∧ copiedText s = t ++ [0] := by
  induction s with
  | nil => cases h
  | cons c cs ih =>
    by_cases nul : c = 0
    · exact ⟨[], by simp, by simp [copiedText, nul]⟩
    · obtain ⟨t, clean, copied⟩ := ih ((List.mem_cons.mp h).resolve_left (Ne.symm nul))
      refine ⟨c :: t, ?_, ?_⟩
      · simp [clean, Ne.symm nul]
      · rw [copiedText, if_neg nul, copied]
        rfl

end TFTP.Requests
