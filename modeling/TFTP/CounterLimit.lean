import TFTP.ShortBlocks

/-!
# The last block number

A file is sent in blocks that a sixteen-bit number counts. Behind block 65535 the number is
0, for which nothing is read, and nothing read is taken for the end of the file. The server
never gets that far: it cannot read the acknowledgement of its block 128.
-/

namespace TFTP.CounterLimit

open Octets Packet Sockets Runs ShortBlocks

/-- Whenever `handleReadRequest` or `handleWRQRequest` leaves its loop after nothing but
acknowledgements it accepts, its payloads are the file. -/
def SentWhole (file : List UInt8) : Prop :=
  (∀ client ackBuffer es t,
    Run (acknowledged (Server.sendReactor Server.readManner client (some file)) ServerAccepts)
      (serverStart Server.readManner client file ackBuffer) es t →
    t.1.status ≠ .sending → t.2.flatten = file) ∧
  (∀ listening es t,
    Run (acknowledged (Client.writeReactor (some file)) ClientAccepts)
      (Client.WriteLoop.start listening, []) es t →
    t.1.status ≠ .sending → t.2.flatten = file)

theorem server_whole (file : List UInt8) {client : Addr} {ackBuffer : Buffer 4} {es : List Recv}
    {t : Server.SendLoop × List (List UInt8)}
    (run : Run (acknowledged (Server.sendReactor Server.readManner client (some file))
      ServerAccepts) (serverStart Server.readManner client file ackBuffer) es t)
    (ended : t.1.status ≠ .sending) : t.2.flatten = file := by
  have counted : Counted file t := run.invariant (server_counted Server.readManner client)
    (serverStart_counted Server.readManner client file ackBuffer)
  rw [(counted.1.resolve_left fun h => ended h.1).2]
  exact Blocks.whole_flatten (by decide) file

theorem client_whole {file : List UInt8} (bound : file.length < 65535 * 512) {listening : Addr}
    {es : List Recv} {t : Client.WriteLoop × List (List UInt8)}
    (run : Run (acknowledged (Client.writeReactor (some file)) ClientAccepts)
      (Client.WriteLoop.start listening, []) es t)
    (ended : t.1.status ≠ .sending) : t.2.flatten = file := by
  have progress : ClientProgress file t :=
    run.invariant (client_progress bound) (clientStart_progress listening file)
  rw [(progress.resolve_left fun h => ended h.1).2]
  exact Blocks.whole_flatten (by decide) file

/-- The client gets through all full blocks its counter has numbers for. -/
theorem client_reaches (listening : Addr) {file : List UInt8} {k : Nat} (limit : k ≤ 65535)
    (long : k * 512 ≤ file.length) :
    ∃ es t, Run (acknowledged (Client.writeReactor (some file)) ClientAccepts)
      (Client.WriteLoop.start listening, []) es t ∧ t.1.status = .sending ∧
      t.1.expectedBlockNumber.toNat = k ∧ t.2 = Blocks.first 512 file k := by
  induction k with
  | zero => exact ⟨[], _, .refl _, rfl, rfl, (Blocks.first_zero 512 file).symm⟩
  | succ k ih =>
    have before : k * 512 ≤ file.length :=
      Nat.le_trans (Nat.mul_le_mul_right 512 (Nat.le_succ k)) long
    obtain ⟨es, t, run, live, number, sent⟩ := ih (Nat.le_of_succ_le limit) before
    obtain ⟨a, turn⟩ := clientStep_ack file (nextAck_accepted t.1)
    have full : ¬ (block file (k + 1)).length < 512 := by
      rw [block_short_iff file (by omega)]
      omega
    obtain ⟨next, block⟩ := writeNext_block t.1.serverAddress
      (s := ⟨t.1.expectedBlockNumber, maxRetry, false, a, t.1.status⟩)
      (show t.1.expectedBlockNumber.toNat < 65535 by omega)
      (show t.1.expectedBlockNumber.toNat * 512 < file.length by omega)
    simp only at next block
    rw [number, if_neg full] at block
    refine ⟨_, _, .snoc run ⟨decide_eq_true live, nextAck_accepted t.1⟩, ?_⟩
    simp only [acknowledged, nextAck, turn, block, payloads_consult, payloads_data]
    refine ⟨live, next.trans (congrArg (· + 1) number), ?_⟩
    rw [sent]
    exact (Blocks.first_succ 512 file k).symm

/-- With one more acknowledgement it leaves its loop, whatever is left of the file. -/
theorem client_cut (listening : Addr) {file : List UInt8} (long : 65535 * 512 ≤ file.length) :
    ∃ es t, Run (acknowledged (Client.writeReactor (some file)) ClientAccepts)
      (Client.WriteLoop.start listening, []) es t ∧ t.1.status ≠ .sending ∧
      t.2.flatten = file.take (65535 * 512) := by
  obtain ⟨es, t, run, live, number, sent⟩ := client_reaches listening (Nat.le_refl 65535) long
  obtain ⟨a, turn⟩ := clientStep_ack file (nextAck_accepted t.1)
  have last : t.1.expectedBlockNumber + 1 = 0 := by
    have value : t.1.expectedBlockNumber = 65535 := UInt16.toNat_inj.mp number
    rw [value]
    rfl
  have empty : readDataBlock (some file) (t.1.expectedBlockNumber + 1) = [] := by
    rw [last, readDataBlock_zero]
  have left := writeNext_empty t.1.serverAddress
    (s := ⟨t.1.expectedBlockNumber, maxRetry, false, a, t.1.status⟩) empty
  refine ⟨_, _, .snoc run ⟨decide_eq_true live, nextAck_accepted t.1⟩, ?_⟩
  simp only [acknowledged, nextAck, turn, left, payloads_consult]
  refine ⟨by simp, ?_⟩
  rw [sent, ← Blocks.first_flatten]
  exact congrArg List.flatten (List.append_nil _)

theorem not_sentWhole {file : List UInt8} (odd : file.length % 512 ≠ 0)
    (long : 65535 * 512 ≤ file.length) : ¬ SentWhole file := by
  intro whole
  obtain ⟨es, t, run, ended, cut⟩ := client_cut ⟨0x7F000001, 69⟩ long
  have same := congrArg List.length ((whole.2 _ es t run ended).symm.trans cut)
  rw [List.length_take] at same
  omega

/-- The senders send a file whole if and only if its last block has a number. -/
theorem sentWhole_iff (file : List UInt8) (odd : file.length % 512 ≠ 0) :
    SentWhole file ↔ file.length < 65535 * 512 := by
  refine ⟨fun whole => ?_, fun bound => ?_⟩
  · by_contra long
    exact not_sentWhole odd (Nat.le_of_not_lt long) whole
  · exact ⟨fun client ackBuffer es t run ended => server_whole file run ended,
      fun listening es t run ended => client_whole bound run ended⟩

/-- Two full blocks and a byte. -/
theorem sentWhole_three_blocks : SentWhole (List.replicate 1025 7) := by
  have size : (List.replicate 1025 (7 : UInt8)).length = 1025 := List.length_replicate
  refine (sentWhole_iff _ ?_).mpr ?_
  · rw [size]
    decide
  · rw [size]
    decide

/-- One byte behind 65535 full blocks is lost. -/
theorem last_byte_cut : ¬ ∀ file : List UInt8, file.length % 512 ≠ 0 → SentWhole file := by
  intro whole
  have size : (List.replicate 33553921 (0 : UInt8)).length = 33553921 := List.length_replicate
  have odd : (List.replicate 33553921 (0 : UInt8)).length % 512 ≠ 0 := by
    rw [size]
    decide
  exact not_sentWhole odd (by rw [size]; decide) (whole _ odd)

end TFTP.CounterLimit
