import TFTP.Download

/-!
# Block 128 is the last

No byte is read as the low byte 128 of an acknowledged number, so the counter of a sender
stops at 128 whatever it receives. A download of 65536 bytes or more is never complete,
and the server never sees the end of one of more than 127 blocks.
-/

namespace TFTP.BlockCeiling

open Octets Packet Sockets Runs Server Download

/-- Where a sender can be in a file. -/
structure Early (file : List UInt8) (s : SendLoop) : Prop where
  pos : s.blockNumber ≠ 0
  below : s.blockNumber.toNat ≤ 128
  size : s.status = .sending → s.dataSize = (block file s.blockNumber.toNat).length
  ended : s.status = .finished → file.length ≤ 127 * 512

/-- A DATA packet with one of the first 128 blocks, and something in it. -/
def EarlyPacket (file p : List UInt8) : Prop :=
  ∃ n : UInt16, n ≠ 0 ∧ n.toNat ≤ 128 ∧ block file n.toNat ≠ [] ∧
    p = header 3 n ++ block file n.toNat

theorem toNat_pos {number : UInt16} (pos : number ≠ 0) : 1 ≤ number.toNat :=
  Nat.pos_of_ne_zero fun zero => pos (UInt16.toNat_inj.mp zero)

section Sender

variable (m : Manner) (client : Addr) (file : List UInt8) {s : SendLoop}

theorem sendTop_early (io : LocalIO) (pos : s.blockNumber ≠ 0) (below : s.blockNumber.toNat ≤ 128)
    (live : s.status = .sending) :
    Early file (sendTop m client (some file) io s).1 ∧
      ∀ dst p, .send dst p ∈ (sendTop m client (some file) io s).2 → EarlyPacket file p := by
  have value := toNat_pos pos
  have read : readDataBlock (some file) s.blockNumber = block file s.blockNumber.toNat :=
    readDataBlock_pos file pos
  simp only [sendTop, read]
  by_cases retry : s.retry = 0
  · simp only [retry, if_true]
    exact ⟨⟨pos, below, by simp, by simp⟩, by simp⟩
  · by_cases empty : (block file s.blockNumber.toNat).length = 0
    · simp only [retry, empty, if_true, if_false]
      refine ⟨⟨pos, below, by simp, fun _ => ?_⟩, by simp⟩
      by_contra long
      exact (block_nonempty_iff file s.blockNumber.toNat).mpr (by omega)
        (List.length_eq_zero_iff.mp empty)
    · have some_bytes : block file s.blockNumber.toNat ≠ [] :=
        fun none => empty (List.length_eq_zero_iff.mpr none)
      simp only [retry, empty, if_false]
      split_ifs
      · exact ⟨⟨pos, below, by simp, by simp⟩, by simp⟩
      · exact ⟨⟨pos, below, fun _ => rfl, by simp [live]⟩, by simp⟩
      · refine ⟨⟨pos, below, fun _ => rfl, by simp [live]⟩, fun dst p sent => ?_⟩
        simp only [List.mem_singleton, Effect.send.injEq] at sent
        exact ⟨s.blockNumber, pos, below, some_bytes, by rw [sent.2, dataDatagram_eq]⟩

/-- The counter goes up only over a number that can be acknowledged. -/
theorem next_below {ackBuffer : Buffer 4} {number : UInt16} (below : number.toNat ≤ 128)
    (num : ackBlockNumberAt ackBuffer = number) :
    number.toNat ≤ 127 ∧ (number + 1).toNat = number.toNat + 1 ∧ number + 1 ≠ 0 := by
  have short : number.toNat ≤ 127 := by
    have apart : number.toNat ≠ 128 := fun same =>
      ackBlockNumberAt_ne ackBuffer (num.trans (UInt16.toNat_inj.mp same))
    omega
  have next : (number + 1).toNat = number.toNat + 1 := by
    rw [UInt16.toNat_add]
    exact Nat.mod_eq_of_lt (show number.toNat + 1 < 65536 by omega)
  refine ⟨short, next, fun zero => ?_⟩
  rw [zero] at next
  cases next

variable {file}

theorem sendStep_early (early : Early file s) (live : s.status = .sending) (e : Recv)
    (io : LocalIO) :
    Early file (sendStep m client (some file) s e io).1 ∧
      ∀ dst p, .send dst p ∈ (sendStep m client (some file) s e io).2 →
        EarlyPacket file p ∨ m.answersInvalid = true ∧ Complaint p := by
  have consult : ∀ {dst p}, ¬ .send dst p ∈ examineOpcode ++ examineNumber := by
    simp [examineOpcode, examineNumber]
  cases e with
  | timeout =>
    obtain ⟨next, sends⟩ := sendTop_early m client file io
      (s := { s with retry := s.retry - 1 }) early.pos early.below live
    exact ⟨next, fun dst p sent => Or.inl (sends dst p sent)⟩
  | datagram src d =>
    have cap : ¬ received 4 d > maxPacketSize :=
      Nat.not_lt.mpr (Nat.le_trans (received_le 4 d) (by decide))
    by_cases reads : ackOpcodeAt (s.ackBuffer.fill d) = 4 ∧
        ackBlockNumberAt (s.ackBuffer.fill d) = s.blockNumber
    · obtain ⟨short, next, pos⟩ := next_below early.below reads.2
      have value := toNat_pos early.pos
      rw [sendStep_ack m client (some file) src io reads.1 reads.2]
      split
      · rename_i last
        refine ⟨⟨early.pos, early.below, by simp, fun _ => ?_⟩,
          fun dst p sent => absurd sent consult⟩
        rw [early.size live, block_short_iff file value] at last
        omega
      · obtain ⟨after, sends⟩ := sendTop_early m client file io
          (s := { s with
            ackBuffer := s.ackBuffer.fill d
            retry := maxRetry
            blockNumber := s.blockNumber + 1 }) pos (by simp only; omega) live
        refine ⟨after, fun dst p sent => Or.inl ?_⟩
        exact sends dst p ((List.mem_append.mp sent).resolve_left consult)
    · obtain ⟨after, sends⟩ := sendTop_early m client file io
        (s := { s with ackBuffer := s.ackBuffer.fill d, retry := maxRetry }) early.pos
        early.below live
      have other : ackOpcodeAt (s.ackBuffer.fill d) ≠ 4 ∨
          ackBlockNumberAt (s.ackBuffer.fill d) ≠ s.blockNumber := not_and_or.mp reads
      simp only [sendStep, cap, if_false, other, if_true]
      refine ⟨after, fun dst p sent => ?_⟩
      rcases List.mem_append.mp sent with sent | sent
      · rcases List.mem_append.mp sent with sent | sent
        · exact absurd sent consult
        · split at sent
          · rename_i answers
            exact Or.inr ⟨answers, sendError_complaint (List.mem_singleton.mp sent)⟩
          · cases sent
      · exact Or.inl (sends dst p sent)

/-- Where nothing is read the loop is left. -/
theorem sendTop_nothing {seen : Option (List UInt8)} (io : LocalIO)
    (nothing : readDataBlock seen s.blockNumber = []) :
    (sendTop m client seen io s).1.status ≠ .sending ∧ (sendTop m client seen io s).2 = [] := by
  simp only [sendTop, nothing, List.length_nil, if_true]
  split <;> simp

/-- A sender that cannot read its file leaves its loop and sends no block. -/
theorem sendStep_blind (s : SendLoop) (e : Recv) (io : LocalIO) :
    (sendStep m client none s e io).1.status ≠ .sending ∧
      ∀ dst p, .send dst p ∈ (sendStep m client none s e io).2 →
        m.answersInvalid = true ∧ .send dst p = illegalAck client := by
  have top : ∀ s : SendLoop, (sendTop m client none io s).1.status ≠ .sending ∧
      (sendTop m client none io s).2 = [] := fun s => sendTop_nothing m client io rfl
  have consult : ∀ {dst p}, ¬ .send dst p ∈ examineOpcode ++ examineNumber := by
    simp [examineOpcode, examineNumber]
  cases e with
  | timeout =>
    obtain ⟨left, silent⟩ := top { s with retry := s.retry - 1 }
    simp only [sendStep, silent]
    exact ⟨left, fun dst p sent => absurd sent List.not_mem_nil⟩
  | datagram src d =>
    have cap : ¬ received 4 d > maxPacketSize :=
      Nat.not_lt.mpr (Nat.le_trans (received_le 4 d) (by decide))
    by_cases reads : ackOpcodeAt (s.ackBuffer.fill d) = 4 ∧
        ackBlockNumberAt (s.ackBuffer.fill d) = s.blockNumber
    · rw [sendStep_ack m client none src io reads.1 reads.2]
      split
      · exact ⟨by simp, fun dst p sent => absurd sent consult⟩
      · obtain ⟨left, silent⟩ := top { s with
          ackBuffer := s.ackBuffer.fill d
          retry := maxRetry
          blockNumber := s.blockNumber + 1 }
        simp only [silent, List.append_nil]
        exact ⟨left, fun dst p sent => absurd sent consult⟩
    · obtain ⟨left, silent⟩ := top { s with
        ackBuffer := s.ackBuffer.fill d
        retry := maxRetry }
      simp only [sendStep, cap, if_false, not_and_or.mp reads, if_true, silent, List.append_nil]
      refine ⟨left, fun dst p sent => ?_⟩
      have answer := (List.mem_append.mp sent).resolve_left consult
      split at answer
      · rename_i answers
        exact ⟨answers, List.mem_singleton.mp answer⟩
      · cases answer

/-- A turn of a sender whose reads may fail. -/
theorem sendStep_seen {seen : Option (List UInt8)} (sees : seen = some file ∨ seen = none)
    (early : Early file s) (live : s.status = .sending) (e : Recv) (io : LocalIO) :
    ((sendStep m client seen s e io).1.status = .sending →
        Early file (sendStep m client seen s e io).1) ∧
      ∀ dst p, .send dst p ∈ (sendStep m client seen s e io).2 →
        (EarlyPacket file p ∨ m.answersInvalid = true ∧ Complaint p) ∧ SenderPacket file p := by
  rcases sees with rfl | rfl
  · obtain ⟨after, sends⟩ := sendStep_early m client early live e io
    exact ⟨fun _ => after, fun dst p sent =>
      ⟨sends dst p sent, sendStep_sends m client file s e io sent⟩⟩
  · obtain ⟨left, complains⟩ := sendStep_blind m client s e io
    refine ⟨fun again => absurd again left, fun dst p sent => ?_⟩
    obtain ⟨answers, complaint⟩ := complains dst p sent
    exact ⟨Or.inr ⟨answers, sendError_complaint complaint⟩, Or.inr (Effect.send.inj complaint).2⟩

/-- The first turn of such a sender. -/
theorem sendTop_seen {seen : Option (List UInt8)} (sees : seen = some file ∨ seen = none)
    (io : LocalIO) (pos : s.blockNumber ≠ 0) (below : s.blockNumber.toNat ≤ 128)
    (live : s.status = .sending) :
    ((sendTop m client seen io s).1.status = .sending →
        Early file (sendTop m client seen io s).1) ∧
      ∀ dst p, .send dst p ∈ (sendTop m client seen io s).2 →
        EarlyPacket file p ∧ SenderPacket file p := by
  rcases sees with rfl | rfl
  · obtain ⟨after, sends⟩ := sendTop_early m client file io pos below live
    exact ⟨fun _ => after, fun dst p out =>
      ⟨sends dst p out, sendTop_sends m client file io s out⟩⟩
  · obtain ⟨left, silent⟩ := sendTop_nothing m client (s := s) io
      (rfl : readDataBlock none s.blockNumber = [])
    refine ⟨fun again => absurd again left, fun dst p out => ?_⟩
    rw [silent] at out
    exact absurd out List.not_mem_nil

end Sender

/-- The client can accept no more than the server can send. -/
structure Ceiling (S : Setup) (t : System) : Prop where
  inv : Inv S t
  server : Early S.file t.server
  packets : ∀ p ∈ t.toClient, EarlyPacket S.file p ∨ Complaint p
  few : accepted t ≤ 128
  completed : t.client.status = .completed → S.file.length < 65536 ∧ S.file.length % 512 ≠ 0

theorem start_ceiling (S : Setup) (ackBuffer : Buffer 4) (io : LocalIO) :
    Ceiling S (start S ackBuffer io) := by
  have first : (SendLoop.start ackBuffer).blockNumber.toNat = 1 := rfl
  obtain ⟨server, sends⟩ := sendTop_early readManner S.client S.file io
    (s := SendLoop.start ackBuffer) (by decide : (1 : UInt16) ≠ 0) (by omega) rfl
  have none_yet : accepted (start S ackBuffer io) = 0 := by simp [accepted, start, writes]
  constructor
  · exact start_inv S ackBuffer io
  · simp only [start]
    exact server
  · intro p hp
    simp only [start, mem_sentTo] at hp
    exact Or.inl (sends S.client p hp)
  · rw [none_yet]
    decide
  · intro done
    cases done

/-- The block the client waits for is one of the first 128 and not empty. -/
theorem expected_early {S : Setup} {t : System} (ceiling : Ceiling S t) {d : List UInt8}
    (hd : d ∈ t.toClient) (h4 : 4 ≤ received 516 d)
    (op : opcodeAt (t.client.recievedBuffer.fill d) = opcodeData)
    (num : recvBlockNumberAt (t.client.recievedBuffer.fill d) = t.client.expectedBlockNumber) :
    accepted t + 1 ≤ 128 ∧ block S.file (accepted t + 1) ≠ [] ∧
      received 516 d = (block S.file (accepted t + 1)).length + 4 := by
  obtain ⟨shape, small⟩ := expected_block ceiling.inv hd h4 op num
  have len : 4 ≤ d.length := Nat.le_trans h4 (Nat.min_le_right _ _)
  rw [opcodeAt_fill _ (by omega)] at op
  rw [recvBlockNumberAt_fill _ len] at num
  rcases ceiling.packets d hd with ⟨n, pos, below, nonempty, same⟩ | complaint
  · rw [same, numberOf_header] at num
    obtain ⟨_, value⟩ := counter_value ceiling.inv.counter ceiling.inv.bounded (num ▸ pos)
    rw [num, value] at below nonempty
    refine ⟨below, nonempty, ?_⟩
    rw [shape]
    exact received_header 3 _ (block_length_le S.file _)
  · rw [(complaint_reads complaint).2] at op
    exact absurd op (by decide)

theorem client_ceiling {S : Setup} {t : System} (ceiling : Ceiling S t) (e : Recv) (io : LocalIO)
    (enabled : Enabled S t (.client e io)) : Ceiling S (step S t (.client e io)) := by
  have inv := step_inv t (.client e io) enabled ceiling.inv
  have live : t.client.status = .receiving := by
    cases e with
    | timeout => exact enabled
    | datagram src d => exact enabled.1
  have count : accepted (step S t (.client e io)) =
      accepted t + (writes (Client.readStep S.member t.client e io).2).length := by
    simp [accepted, step, writes_append]
  rcases Client.readStep_cases S.member t.client e io with quiet | ⟨src, d, rfl, acc⟩
  · refine ⟨inv, ceiling.server, ceiling.packets, ?_, fun done => ?_⟩
    · rw [count, quiet.writes]
      exact ceiling.few
    · exact ceiling.completed (quiet.completed done)
  · obtain ⟨few, nonempty, size⟩ := expected_early ceiling (enabled.2 acc.verified).2 acc.header
      acc.opcode acc.number
    refine ⟨inv, ceiling.server, ceiling.packets, ?_, fun done => ?_⟩
    · rw [count, acc.writes]
      exact few
    · have short : received 516 d < 516 := (acc.completed done).resolve_left (by simp [live])
      have reach := (block_nonempty_iff S.file (accepted t + 1)).mp nonempty
      have brief := (block_short_iff S.file (b := accepted t + 1) (by omega)).mp (by omega)
      omega

theorem step_ceiling {S : Setup} (t : System) (a : Action) (enabled : Enabled S t a)
    (ceiling : Ceiling S t) : Ceiling S (step S t a) := by
  cases a with
  | client e io => exact client_ceiling ceiling e io enabled
  | server e io =>
    have live : t.server.status = .sending := by
      cases e with
      | timeout => exact enabled
      | datagram src d => exact enabled.1
    obtain ⟨server, sends⟩ := sendStep_early readManner S.client ceiling.server live e io
    refine { ceiling with
      inv := step_inv t (.server e io) enabled ceiling.inv
      server := server
      packets := fun p hp => ?_ }
    rcases List.mem_append.mp hp with old | new
    · exact ceiling.packets p old
    · exact (sends S.client p (mem_sentTo.mp new)).imp_right And.right

/-- Over any network the server sends no block behind 128, only a file of less than 65536
bytes that ends in a short block is ever complete, and the server sees the end of none above
65024 bytes. -/
theorem download_ceiling (S : Setup) (ackBuffer : Buffer 4) (io : LocalIO) {acts : List Action}
    {t : System} (run : Run (machine S) (start S ackBuffer io) acts t) :
    (∀ p ∈ t.toClient, opcodeOf p = opcodeData → (numberOf p).toNat ≤ 128) ∧
      accepted t ≤ 128 ∧
      (t.client.status = .completed → S.file.length < 65536 ∧ S.file.length % 512 ≠ 0) ∧
      (t.server.status = .finished → S.file.length ≤ 127 * 512) := by
  have ceiling : Ceiling S t := run.invariant step_ceiling (start_ceiling S ackBuffer io)
  refine ⟨fun p hp op => ?_, ceiling.few, ceiling.completed, ceiling.server.ended⟩
  rcases ceiling.packets p hp with ⟨n, _, below, _, rfl⟩ | complaint
  · rw [numberOf_header]
    exact below
  · rw [(complaint_reads complaint).2] at op
    exact absurd op (by decide)

/-- The one byte of a file arrives in one block. -/
theorem download_ceiling_one_byte :
    oneByteDone.client.status = .completed ∧ accepted oneByteDone ≤ 128 ∧
      oneByte.file.length % 512 ≠ 0 := by
  have done : oneByteDone.client.status = .completed := by decide
  obtain ⟨_, few, whole, _⟩ := download_ceiling oneByte (Buffer.zero 4) .ok oneByteDone_reached
  exact ⟨done, few, (whole done).2⟩

end TFTP.BlockCeiling
