import TFTP.ServerLoops
import TFTP.ClientLoops

/-!
# Oversized packets

Three receiving loops refuse a packet of more than 516 bytes by the length that `recvfrom`
returns. It never returns more than the size of the buffer, so the test is never met, and a
longer datagram is taken for its first 516 bytes: a full block.
-/

namespace TFTP.OversizedPackets

open Octets Packet Sockets

/-- Nothing is stored, the counter stands, and no ACK goes out. -/
structure Rejected (before after : UInt16) (out : List Effect) : Prop where
  stored : writes out = []
  expected : after = before
  unacknowledged : ∀ dst p, .send dst p ∈ out → opcodeOf p ≠ opcodeAck

def ServerRejects (clientAddress : Addr) (s : Server.WriteLoop) (src : Addr) (d : List UInt8)
    (io : LocalIO) : Prop :=
  let next := Server.writeStep clientAddress s (.datagram src d) io
  Rejected s.expectedBlockNumber next.1.expectedBlockNumber next.2

def ReadRejects (clientAddress : Addr) (s : Client.ReadLoop) (src : Addr) (d : List UInt8)
    (io : LocalIO) : Prop :=
  let next := Client.readStep clientAddress s (.datagram src d) io
  Rejected s.expectedBlockNumber next.1.expectedBlockNumber next.2

def ListRejects (serverAddress : Addr) (s : Client.ListLoop) (src : Addr) (d : List UInt8)
    (io : LocalIO) : Prop :=
  let next := Client.listStep serverAddress s (.datagram src d) io
  Rejected s.expectedBlockNumber next.1.expectedBlockNumber next.2

theorem not_rejected {before after : UInt16} {out : List Effect} {dst : Addr} {number : UInt16}
    (ack : sendACK dst number ∈ out) : ¬ Rejected before after out :=
  fun rejected => rejected.unacknowledged dst _ ack (opcodeOf_ack number)

/-- What a turn does that turns a packet away: it looks at it, and may complain. -/
def TurnsAway (out : List Effect) : Prop :=
  ∀ e ∈ out, (∃ i, e = .examine i) ∨ (∃ len, e = .payload len) ∨
    ∃ dst code msg, e = sendError dst code msg

theorem TurnsAway.rejected {number : UInt16} {out : List Effect} (away : TurnsAway out) :
    Rejected number number out where
  stored := by
    apply List.filterMap_eq_nil_iff.mpr
    intro e mem
    rcases away e mem with ⟨i, rfl⟩ | ⟨len, rfl⟩ | ⟨dst, code, msg, rfl⟩
    · rfl
    · rfl
    · rfl
  expected := rfl
  unacknowledged := by
    intro dst p mem ack
    rcases away _ mem with ⟨i, eq⟩ | ⟨len, eq⟩ | ⟨a, code, msg, eq⟩
    · cases eq
    · cases eq
    · rw [(complaint_reads (sendError_complaint eq)).2] at ack
      exact absurd ack (by decide)

theorem TurnsAway.append {out rest : List Effect} (away : TurnsAway out) (more : TurnsAway rest) :
    TurnsAway (out ++ rest) := by
  intro e mem
  rcases List.mem_append.mp mem with first | second
  · exact away e first
  · exact more e second

theorem turnsAway_examine : TurnsAway (examineOpcode ++ examineNumber) :=
  fun _ mem => Or.inl (mem_examine mem)

theorem turnsAway_opcode : TurnsAway examineOpcode :=
  fun e mem => turnsAway_examine e (List.mem_append_left _ mem)

theorem turnsAway_payload (len : Int) : TurnsAway [.payload len] :=
  fun _ mem => Or.inr (Or.inl ⟨len, List.mem_singleton.mp mem⟩)

theorem turnsAway_error (dst : Addr) (code : UInt16) (msg : String) :
    TurnsAway [sendError dst code msg] :=
  fun _ mem => Or.inr (Or.inr ⟨dst, code, msg, List.mem_singleton.mp mem⟩)

/-- An acknowledging turn ends with its ACK. -/
theorem ack_mem (used : List Effect) (bytes : List UInt8) (dst : Addr) (number : UInt16) :
    sendACK dst number ∈ used ++ [.write bytes, sendACK dst number] :=
  List.mem_append_right _ (List.mem_cons_of_mem _ List.mem_cons_self)

section Loops

variable {d : List UInt8}

/-- The value returned for a longer datagram is the size of the buffer. -/
theorem received_long (long : 516 < d.length) : received 516 d = 516 :=
  Nat.min_eq_left (Nat.le_of_lt long)

theorem opcodeAt_long (long : 516 < d.length) (b : RecvBuffer) :
    opcodeAt (b.fill d) = opcodeOf d := opcodeAt_fill b (by omega)

theorem recvBlockNumberAt_long (long : 516 < d.length) (b : RecvBuffer) :
    recvBlockNumberAt (b.fill d) = numberOf d := recvBlockNumberAt_fill b (by omega)

theorem payload_long : ((516 : Nat) : Int) - 4 = 512 := rfl

theorem server_rejects_iff (long : 516 < d.length) (clientAddress : Addr) (s : Server.WriteLoop)
    (src : Addr) (io : LocalIO) : ServerRejects clientAddress s src d io ↔
      opcodeOf d ≠ 3 ∨ numberOf d ≠ s.expectedBlockNumber ∨ io.writeFails = true := by
  have whole : ¬ (512 : Int) < 0 := by decide
  simp only [ServerRejects, Server.writeStep, received_long long, opcodeAt_long long,
    recvBlockNumberAt_long long, payload_long, gt_iff_lt, Nat.lt_irrefl, Int.lt_irrefl, whole,
    if_false]
  split_ifs with op num fails
  · exact iff_of_true (turnsAway_opcode.append (turnsAway_error _ _ _)).rejected (Or.inl op)
  · exact iff_of_true (turnsAway_examine.append (turnsAway_error _ _ _)).rejected
      (Or.inr (Or.inl num))
  · exact iff_of_true ((turnsAway_examine.append (turnsAway_payload _)).append
      (turnsAway_error _ _ _)).rejected (Or.inr (Or.inr fails))
  · refine iff_of_false (not_rejected (ack_mem _ _ _ _)) ?_
    rintro (other | other | other)
    · exact op other
    · exact num other
    · exact fails other

theorem list_rejects_iff (long : 516 < d.length) (serverAddress : Addr) (s : Client.ListLoop)
    (src : Addr) (io : LocalIO) : ListRejects serverAddress s src d io ↔
      src.ip ≠ serverAddress.ip ∨ opcodeOf d ≠ opcodeData ∨
        numberOf d ≠ s.expectedBlockNumber ∨ io.writeFails = true := by
  have whole : ¬ (512 : Int) < 0 := by decide
  simp only [ListRejects, Client.listStep, received_long long, opcodeAt_long long,
    recvBlockNumberAt_long long, payload_long, maxPacketSize, gt_iff_lt, Nat.lt_irrefl, whole,
    if_false]
  split_ifs with ip op num fails
  · exact iff_of_true (turnsAway_error _ _ _).rejected (Or.inl ip)
  · exact iff_of_true (turnsAway_opcode.append (turnsAway_error _ _ _)).rejected
      (Or.inr (Or.inl op))
  · exact iff_of_true turnsAway_examine.rejected (Or.inr (Or.inr (Or.inl num)))
  · exact iff_of_true ((turnsAway_examine.append (turnsAway_payload _)).append
      (turnsAway_error _ _ _)).rejected (Or.inr (Or.inr (Or.inr fails)))
  · refine iff_of_false (not_rejected (ack_mem _ _ _ _)) ?_
    rintro (other | other | other | other)
    · exact ip other
    · exact op other
    · exact num other
    · exact fails other

/-- A DATA packet with another number is answered by the ACK of the block before. -/
theorem read_rejects_iff (long : 516 < d.length) (clientAddress : Addr) (s : Client.ReadLoop)
    (src : Addr) (io : LocalIO) : ReadRejects clientAddress s src d io ↔
      Client.verifySource s.serverAddress s.initialPacket src = none ∨ opcodeOf d ≠ opcodeData ∨
        (numberOf d = s.expectedBlockNumber ∧ io.writeFails = true) := by
  have whole : ¬ (512 : Int) < 0 := by decide
  have used := turnsAway_examine.append (turnsAway_payload 512)
  simp only [ReadRejects, Client.readStep, received_long long, opcodeAt_long long,
    recvBlockNumberAt_long long, payload_long, maxPacketSize, gt_iff_lt, Nat.lt_irrefl, whole,
    Int.lt_irrefl, if_false]
  cases source : Client.verifySource s.serverAddress s.initialPacket src with
  | none => exact iff_of_true (turnsAway_error _ _ _).rejected (Or.inl rfl)
  | some a =>
    simp only
    split_ifs with illegal error num fails
    · exact iff_of_true (turnsAway_opcode.append (turnsAway_error _ _ _)).rejected
        (Or.inr (Or.inl illegal.2))
    · exact iff_of_true used.rejected (Or.inr (Or.inl (by rw [error]; decide)))
    · refine iff_of_false (not_rejected (List.mem_append_right _ List.mem_cons_self)) ?_
      rintro (other | other | ⟨same, _⟩)
      · cases other
      · exact illegal ⟨error, other⟩
      · exact num same
    · exact iff_of_true (used.append (turnsAway_error _ _ _)).rejected
        (Or.inr (Or.inr ⟨not_not.mp num, fails⟩))
    · refine iff_of_false (not_rejected (ack_mem _ _ _ _)) ?_
      rintro (other | other | ⟨_, other⟩)
      · cases other
      · exact illegal ⟨error, other⟩
      · exact fails other

end Loops

/-- What it takes for each of the loops to reject a longer datagram, in any state. -/
theorem oversized_rejected_iff {d : List UInt8} (long : 516 < d.length) (src : Addr)
    (io : LocalIO) :
    (∀ (clientAddress : Addr) (s : Server.WriteLoop), ServerRejects clientAddress s src d io ↔
      opcodeOf d ≠ 3 ∨ numberOf d ≠ s.expectedBlockNumber ∨ io.writeFails = true) ∧
    (∀ (clientAddress : Addr) (s : Client.ReadLoop), ReadRejects clientAddress s src d io ↔
      Client.verifySource s.serverAddress s.initialPacket src = none ∨
        opcodeOf d ≠ opcodeData ∨
        (numberOf d = s.expectedBlockNumber ∧ io.writeFails = true)) ∧
    (∀ (serverAddress : Addr) (s : Client.ListLoop), ListRejects serverAddress s src d io ↔
      src.ip ≠ serverAddress.ip ∨ opcodeOf d ≠ opcodeData ∨
        numberOf d ≠ s.expectedBlockNumber ∨ io.writeFails = true) :=
  ⟨fun clientAddress s => server_rejects_iff long clientAddress s src io,
    fun clientAddress s => read_rejects_iff long clientAddress s src io,
    fun serverAddress s => list_rejects_iff long serverAddress s src io⟩

/-- A header that announces block 1, and 513 bytes behind it. -/
def longBlock : List UInt8 := [0, 3, 0, 1] ++ List.replicate 513 7

theorem longBlock_long : 516 < longBlock.length := by decide +kernel

theorem oversized_rejected_iff_long :
    (∀ (clientAddress : Addr) (s : Server.WriteLoop),
      ServerRejects clientAddress s ⟨1, 2⟩ longBlock .ok ↔ opcodeOf longBlock ≠ 3 ∨
        numberOf longBlock ≠ s.expectedBlockNumber ∨ LocalIO.ok.writeFails = true) ∧
    (∀ (clientAddress : Addr) (s : Client.ReadLoop),
      ReadRejects clientAddress s ⟨1, 2⟩ longBlock .ok ↔
        Client.verifySource s.serverAddress s.initialPacket ⟨1, 2⟩ = none ∨
        opcodeOf longBlock ≠ opcodeData ∨
        (numberOf longBlock = s.expectedBlockNumber ∧ LocalIO.ok.writeFails = true)) ∧
    (∀ (serverAddress : Addr) (s : Client.ListLoop),
      ListRejects serverAddress s ⟨1, 2⟩ longBlock .ok ↔
        (⟨1, 2⟩ : Addr).ip ≠ serverAddress.ip ∨ opcodeOf longBlock ≠ opcodeData ∨
        numberOf longBlock ≠ s.expectedBlockNumber ∨ LocalIO.ok.writeFails = true) :=
  oversized_rejected_iff longBlock_long ⟨1, 2⟩ .ok

/-- A block of 513 bytes, expected as the first one, is accepted by all three. -/
theorem long_block_accepted : 516 < longBlock.length ∧
    ¬ ServerRejects ⟨1, 2⟩ .start ⟨1, 2⟩ longBlock .ok ∧
    ¬ ReadRejects ⟨3, 4⟩ (.start ⟨1, 2⟩) ⟨1, 2⟩ longBlock .ok ∧
    ¬ ListRejects ⟨1, 2⟩ (.start (Buffer.zero 516)) ⟨1, 2⟩ longBlock .ok := by
  refine ⟨longBlock_long, ?_, ?_, ?_⟩
  · rw [server_rejects_iff longBlock_long]
    decide
  · rw [read_rejects_iff longBlock_long]
    decide
  · rw [list_rejects_iff longBlock_long]
    decide

end TFTP.OversizedPackets
