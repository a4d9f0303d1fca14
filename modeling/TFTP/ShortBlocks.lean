import TFTP.ServerLoops
import TFTP.ClientLoops

/-!
# The block that ends a transfer

Receivers stop on a block below 512 bytes and on nothing else. The senders stop behind
such a block too, but also on an empty read, for which they send nothing. Runs are
considered in which every DATA packet is answered by an acknowledgement that the
sender accepts.
-/

namespace TFTP.ShortBlocks

open Octets Packet Sockets Runs

/-- The payloads of the DATA packets sent in one turn. -/
def payloads (effects : List Effect) : List (List UInt8) :=
  effects.filterMap fun
    | .send _ p => if opcodeOf p = 3 then some (p.drop 4) else none
    | _ => none

/-- A loop that gets nothing but acceptable datagrams, with all payloads so far. -/
def acknowledged {State : Type} (R : Reactor State (Recv × LocalIO) Effect)
    (Accepts : State → Recv → Prop) : Machine (State × List (List UInt8)) Recv where
  enabled := fun t e => R.running t.1 = true ∧ Accepts t.1 e
  step := fun t e => ((R.react t.1 (e, .ok)).1, t.2 ++ payloads (R.react t.1 (e, .ok)).2)

/-- The DATA packets for some payloads, numbered from `n` on, as they arrive in order. -/
def numbered (src : Addr) (n : UInt16) : List (List UInt8) → List (Recv × LocalIO)
  | [] => []
  | p :: ps => (.datagram src (header 3 n ++ p), .ok) :: numbered src (n + 1) ps

/-- Each of the three receivers completes on these payloads. -/
def ReceiversStop (parts : List (List UInt8)) : Prop :=
  (∀ member listening src : Addr, src.ip = listening.ip →
    ((Client.readReactor member).feed (Client.ReadLoop.start listening)
      (numbered src 1 parts)).1.status = .completed) ∧
  (∀ (listening src : Addr) (recievedBuffer : RecvBuffer), src.ip = listening.ip →
    ((Client.listReactor listening).feed (Client.ListLoop.start recievedBuffer)
      (numbered src 1 parts)).1.status = .completed) ∧
  (∀ client src : Addr,
    ((Server.writeReactor client).feed Server.WriteLoop.start
      (numbered src 1 parts)).1.status = .received)

/-- A receiver that takes full blocks in order stops on the first one that is not. -/
theorem feed_done {State : Type} {R : Reactor State (Recv × LocalIO) Effect} {src : Addr}
    (Awaits : State → UInt16 → Prop) (Done : State → Prop)
    (live : ∀ s n, Awaits s n → R.running s = true)
    (turn : ∀ s n (p : List UInt8), Awaits s n → p.length ≤ 512 →
      if p.length < 512 then Done (R.react s (.datagram src (header 3 n ++ p), .ok)).1
      else Awaits (R.react s (.datagram src (header 3 n ++ p), .ok)).1 (n + 1))
    {init : List (List UInt8)} {last : List UInt8} (brief : last.length < 512)
    (filled : ∀ p ∈ init, p.length = 512) {s : State} {n : UInt16} (awaits : Awaits s n) :
    Done (R.feed s (numbered src n (init ++ [last]))).1 := by
  induction init generalizing s n with
  | nil =>
    have done := turn s n last awaits (Nat.le_of_lt brief)
    rw [if_pos brief] at done
    rw [List.nil_append, numbered, R.feed_cons (live s n awaits)]
    exact done
  | cons p ps ih =>
    have full := filled p List.mem_cons_self
    have next := turn s n p awaits (Nat.le_of_eq full)
    rw [if_neg (by omega)] at next
    rw [List.cons_append, numbered, R.feed_cons (live s n awaits)]
    exact ih (fun q hq => filled q (List.mem_cons_of_mem p hq)) next

theorem packet_length (n : UInt16) (p : List UInt8) : (header 3 n ++ p).length = p.length + 4 := by
  rw [List.length_append, header_length, Nat.add_comm]

/-- What a receiver checks of a DATA packet. -/
theorem packet_reads (n : UInt16) {p : List UInt8} (le : p.length ≤ 512) :
    4 ≤ (header 3 n ++ p).length ∧ (header 3 n ++ p).length ≤ 516 ∧
      opcodeOf (header 3 n ++ p) = opcodeData ∧ numberOf (header 3 n ++ p) = n := by
  rw [packet_length]
  refine ⟨Nat.le_add_left _ _, Nat.add_le_add_right le 4, ?_, numberOf_header 3 n p⟩
  rw [opcodeOf_header]
  decide

section Receivers

variable {init : List (List UInt8)} {last : List UInt8}

theorem readLoop_stops (brief : last.length < 512) (filled : ∀ p ∈ init, p.length = 512)
    (member : Addr) {listening src : Addr} (source : src.ip = listening.ip) :
    ((Client.readReactor member).feed (Client.ReadLoop.start listening)
      (numbered src 1 (init ++ [last]))).1.status = .completed := by
  have verified : ∀ s : Client.ReadLoop, s.serverAddress.ip = src.ip →
      (s.initialPacket = true ∨ s.serverAddress = src) →
      Client.verifySource s.serverAddress s.initialPacket src = some src := by
    intro s ip learnt
    unfold Client.verifySource
    rcases learnt with initial | same
    · simp [initial, ip]
    · simp [same]
  refine feed_done
    (fun (s : Client.ReadLoop) n => s.status = .receiving ∧ s.expectedBlockNumber = n ∧
      s.serverAddress.ip = src.ip ∧ (s.initialPacket = true ∨ s.serverAddress = src))
    (fun s => s.status = .completed) ?_ ?_ brief filled ⟨rfl, rfl, source.symm, Or.inl rfl⟩
  · exact fun s n h => decide_eq_true h.1
  · rintro s n p ⟨run, hn, ip, learnt⟩ le
    obtain ⟨h4, fits, data, number⟩ := packet_reads n le
    have turn := Client.readStep_accept member s (verified s ip learnt) h4 fits data
      (number.trans hn.symm) (show LocalIO.ok.writeFails = false from rfl)
    simp only [Client.readReactor, turn, packet_length, run, hn]
    by_cases short : p.length < 512
    · rw [if_pos short]
      exact if_pos (by omega)
    · rw [if_neg short]
      exact ⟨if_neg (by omega), trivial, trivial, Or.inr trivial⟩

theorem listLoop_stops (brief : last.length < 512) (filled : ∀ p ∈ init, p.length = 512)
    {listening src : Addr} (recievedBuffer : RecvBuffer) (source : src.ip = listening.ip) :
    ((Client.listReactor listening).feed (Client.ListLoop.start recievedBuffer)
      (numbered src 1 (init ++ [last]))).1.status = .completed := by
  refine feed_done
    (fun (s : Client.ListLoop) n => s.status = .receiving ∧ s.expectedBlockNumber = n)
    (fun s => s.status = .completed) ?_ ?_ brief filled ⟨rfl, rfl⟩
  · exact fun s n h => decide_eq_true h.1
  · rintro s n p ⟨run, hn⟩ le
    obtain ⟨h4, fits, data, number⟩ := packet_reads n le
    have turn := Client.listStep_accept listening s source h4 fits data (number.trans hn.symm)
      (show LocalIO.ok.writeFails = false from rfl)
    simp only [Client.listReactor, turn, packet_length, run, hn]
    by_cases short : p.length < 512
    · rw [if_pos short]
      exact if_pos (by omega)
    · rw [if_neg short]
      exact ⟨if_neg (by omega), trivial⟩

theorem writeLoop_stops (brief : last.length < 512) (filled : ∀ p ∈ init, p.length = 512)
    (client src : Addr) :
    ((Server.writeReactor client).feed Server.WriteLoop.start
      (numbered src 1 (init ++ [last]))).1.status = .received := by
  refine feed_done
    (fun (s : Server.WriteLoop) n => s.status = .receiving ∧ s.expectedBlockNumber = n)
    (fun s => s.status = .received) ?_ ?_ brief filled ⟨rfl, rfl⟩
  · exact fun s n h => decide_eq_true h.1
  · rintro s n p ⟨run, hn⟩ le
    obtain ⟨h4, fits, data, number⟩ := packet_reads n le
    have turn := Server.writeStep_accept client s src h4 fits data (number.trans hn.symm)
      (show LocalIO.ok.writeFails = false from rfl)
    simp only [Server.writeReactor, turn, packet_length, run, hn]
    by_cases short : p.length < 512
    · rw [if_pos short]
      exact if_pos (by omega)
    · rw [if_neg short]
      exact ⟨if_neg (by omega), trivial⟩

end Receivers

theorem receivers_stop {parts : List (List UInt8)} (ended : Blocks.ShortEnded 512 parts) :
    ReceiversStop parts := by
  obtain ⟨init, last, rfl, brief, filled⟩ := ended
  refine ⟨?_, ?_, ?_⟩
  · exact fun member listening src source => readLoop_stops brief filled member source
  · exact fun listening src buffer source => listLoop_stops brief filled buffer source
  · exact fun client src => writeLoop_stops brief filled client src

/-- The source of an acknowledgement is not looked at, its bytes are read signed. -/
def ServerAccepts (s : Server.SendLoop) : Recv → Prop
  | .timeout => False
  | .datagram _ d => Server.ackOpcodeAt (s.ackBuffer.fill d) = 4 ∧
      Server.ackBlockNumberAt (s.ackBuffer.fill d) = s.blockNumber

def ClientAccepts (s : Client.WriteLoop) : Recv → Prop
  | .timeout => False
  | .datagram src d => Client.verifySource s.serverAddress s.initialPacket src ≠ none ∧
      opcodeAt ((Buffer.zero 516).fill d) = opcodeAck ∧
      recvBlockNumberAt ((Buffer.zero 516).fill d) = s.expectedBlockNumber

def serverStart (m : Server.Manner) (client : Addr) (file : List UInt8) (ackBuffer : Buffer 4) :
    Server.SendLoop × List (List UInt8) :=
  let first := Server.sendTop m client (some file) .ok (Server.SendLoop.start ackBuffer)
  (first.1, payloads first.2)

def Terminated (file : List UInt8) (parts : List (List UInt8)) : Prop :=
  parts.flatten = file ∧ Blocks.ShortEnded 512 parts ∧ ReceiversStop parts

/-- Whenever one of the three sender loops ends after nothing but acknowledgements it
accepts, its payloads are the file, ended by a short block. -/
def SendersTerminate (file : List UInt8) : Prop :=
  (∀ m ∈ [Server.readManner, Server.listManner], ∀ client ackBuffer es t,
    Run (acknowledged (Server.sendReactor m client (some file)) ServerAccepts)
      (serverStart m client file ackBuffer) es t →
    t.1.status ≠ .sending → Terminated file t.2) ∧
  (∀ listening es t,
    Run (acknowledged (Client.writeReactor (some file)) ClientAccepts)
      (Client.WriteLoop.start listening, []) es t →
    t.1.status ≠ .sending → Terminated file t.2)

theorem payloads_append (xs ys : List Effect) : payloads (xs ++ ys) = payloads xs ++ payloads ys :=
  List.filterMap_append

@[simp] theorem payloads_consult (rest : List Effect) :
    payloads (examineOpcode ++ examineNumber ++ rest) = payloads rest := rfl

@[simp] theorem payloads_data (dst : Addr) (n : UInt16) (p : List UInt8) :
    payloads [.send dst (header 3 n ++ p)] = [p] := by
  have data : opcodeOf (header 3 n ++ p) = 3 := by
    rw [opcodeOf_header]
    decide
  simp only [payloads, List.filterMap_cons, data, if_true, List.filterMap_nil]
  rw [List.drop_left' (header_length 3 n)]

/-- The blocks are used up: all of them have been sent. -/
theorem first_eq_whole {file : List UInt8} {b : Nat} (reach : file.length = b * 512) :
    Blocks.first 512 file b = Blocks.whole 512 file := by
  rw [Blocks.whole, reach, Blocks.count_mul (by decide)]

theorem first_eq_whole_of_short {file : List UInt8} {b : Nat} (below : b * 512 < file.length)
    (short : (block file (b + 1)).length < 512) :
    Blocks.first 512 file (b + 1) = Blocks.whole 512 file := by
  have reach := (block_short_iff file (b := b + 1) (by omega)).mp short
  rw [Blocks.whole, Blocks.count_eq_of_last below (Nat.le_of_lt reach)]

/-- A server loop is waiting for the acknowledgement of block `b + 1`, or has sent
every block. -/
def ServerProgress (file : List UInt8) (t : Server.SendLoop × List (List UInt8)) : Prop :=
  (t.1.status = .sending ∧ ∃ b, t.1.blockNumber.toNat = b + 1 ∧ b * 512 < file.length ∧
    t.1.dataSize = (block file (b + 1)).length ∧ t.2 = Blocks.first 512 file (b + 1)) ∨
  (t.1.status ≠ .sending ∧ t.2 = Blocks.whole 512 file)

theorem sendTop_progress (m : Server.Manner) (client : Addr) (file : List UInt8)
    {s : Server.SendLoop} {b : Nat} (live : s.status = .sending) (retry : s.retry ≠ 0)
    (number : s.blockNumber.toNat = b + 1) (full : b * 512 ≤ file.length) :
    ServerProgress file ((Server.sendTop m client (some file) .ok s).1,
      Blocks.first 512 file b ++ payloads (Server.sendTop m client (some file) .ok s).2) := by
  by_cases left : b * 512 < file.length
  · rw [Server.sendTop_block m client retry number left, payloads_data]
    exact Or.inl ⟨live, b, number, left, rfl, (Blocks.first_succ 512 file b).symm⟩
  · rw [Server.sendTop_empty m client retry number (Nat.le_of_not_lt left)]
    refine Or.inr ⟨by simp, ?_⟩
    rw [← first_eq_whole (b := b) (by omega)]
    exact List.append_nil _

theorem serverStart_progress (m : Server.Manner) (client : Addr) (file : List UInt8)
    (ackBuffer : Buffer 4) : ServerProgress file (serverStart m client file ackBuffer) := by
  have first := sendTop_progress (b := 0) (s := Server.SendLoop.start ackBuffer) m client
    file rfl (by simp [Server.SendLoop.start, maxRetry]) rfl (by omega)
  rwa [Blocks.first_zero, List.nil_append] at first

/-- Below its limit the counter moves to the next block. -/
theorem server_progress (m : Server.Manner) (client : Addr) {file : List UInt8}
    (t : Server.SendLoop × List (List UInt8)) (e : Recv)
    (enabled : (acknowledged (Server.sendReactor m client (some file)) ServerAccepts).enabled t e)
    (limit : t.1.blockNumber.toNat < 65535) (progress : ServerProgress file t) :
    ServerProgress file
      ((acknowledged (Server.sendReactor m client (some file)) ServerAccepts).step t e) := by
  obtain ⟨running, accepts⟩ := enabled
  have live : t.1.status = .sending := of_decide_eq_true running
  obtain ⟨b, number, below, size, sent⟩ := (progress.resolve_right (fun h => h.1 live)).2
  cases e with
  | timeout => exact False.elim accepts
  | datagram src d =>
    simp only [acknowledged, Server.sendReactor,
      Server.sendStep_ack m client (some file) src .ok accepts.1 accepts.2, size, sent]
    by_cases short : (block file (b + 1)).length < 512
    · rw [if_pos short]
      refine Or.inr ⟨by simp, ?_⟩
      rw [← List.append_nil (examineOpcode ++ examineNumber), payloads_consult]
      exact (List.append_nil _).trans (first_eq_whole_of_short below short)
    · rw [if_neg short]
      have full := (block_short_iff file (b := b + 1) (by omega)).not.mp short
      rw [payloads_consult]
      refine sendTop_progress m client file live (by simp [maxRetry]) ?_ (by omega)
      · rw [succ_toNat limit, number]

/-- No byte reads as the low byte 128 of a number, so the counter stops at 128. -/
def Counted (file : List UInt8) (t : Server.SendLoop × List (List UInt8)) : Prop :=
  ServerProgress file t ∧ t.1.blockNumber.toNat ≤ 128

theorem sendTop_counter (m : Server.Manner) (client : Addr) (file : Option (List UInt8))
    (io : LocalIO) (s : Server.SendLoop) :
    (Server.sendTop m client file io s).1.blockNumber = s.blockNumber := by
  simp only [Server.sendTop]
  split_ifs <;> rfl

theorem server_counted (m : Server.Manner) (client : Addr) {file : List UInt8}
    (t : Server.SendLoop × List (List UInt8)) (e : Recv)
    (enabled : (acknowledged (Server.sendReactor m client (some file)) ServerAccepts).enabled t e)
    (counted : Counted file t) : Counted file
      ((acknowledged (Server.sendReactor m client (some file)) ServerAccepts).step t e) := by
  obtain ⟨progress, limit⟩ := counted
  refine ⟨server_progress m client t e enabled (by omega) progress, ?_⟩
  cases e with
  | timeout => exact False.elim enabled.2
  | datagram src d =>
    obtain ⟨opcode, number⟩ := enabled.2
    have before : t.1.blockNumber.toNat ≠ 128 := by
      intro last
      refine Server.ackBlockNumberAt_ne (t.1.ackBuffer.fill d) ?_
      rw [number]
      exact UInt16.toNat_inj.mp last
    simp only [acknowledged, Server.sendReactor,
      Server.sendStep_ack m client (some file) src .ok opcode number]
    split_ifs
    · exact limit
    · rw [sendTop_counter, succ_toNat (by omega)]
      omega

theorem serverStart_counted (m : Server.Manner) (client : Addr) (file : List UInt8)
    (ackBuffer : Buffer 4) : Counted file (serverStart m client file ackBuffer) := by
  refine ⟨serverStart_progress m client file ackBuffer, ?_⟩
  rw [serverStart, sendTop_counter]
  exact Nat.le_of_ble_eq_true rfl

/-- The client is waiting for the acknowledgement of block `b`, or has sent every block. -/
def ClientProgress (file : List UInt8) (t : Client.WriteLoop × List (List UInt8)) : Prop :=
  (t.1.status = .sending ∧ t.1.expectedBlockNumber.toNat * 512 ≤ file.length ∧
    t.2 = Blocks.first 512 file t.1.expectedBlockNumber.toNat) ∨
  (t.1.status ≠ .sending ∧ t.2 = Blocks.whole 512 file)

/-- Below its limit the counter moves to the next block, which is sent if it has any bytes. -/
theorem writeNext_block (src : Addr) {file : List UInt8} {s : Client.WriteLoop}
    (limit : s.expectedBlockNumber.toNat < 65535)
    (left : s.expectedBlockNumber.toNat * 512 < file.length) :
    (s.expectedBlockNumber + 1).toNat = s.expectedBlockNumber.toNat + 1 ∧
      Client.writeNext (some file) src s .ok =
        ({ s with
            expectedBlockNumber := s.expectedBlockNumber + 1
            status := if (block file (s.expectedBlockNumber.toNat + 1)).length < 512
              then .succeeded else s.status },
          [.send src (header 3 (s.expectedBlockNumber + 1) ++
            block file (s.expectedBlockNumber.toNat + 1))]) := by
  have number := succ_toNat limit
  have pos : s.expectedBlockNumber + 1 ≠ 0 := by
    intro zero
    rw [zero] at number
    cases number
  have read : readDataBlock (some file) (s.expectedBlockNumber + 1) =
      block file (s.expectedBlockNumber.toNat + 1) := by
    rw [readDataBlock_pos file pos, number]
  have nonempty := block_nonempty_iff file (s.expectedBlockNumber.toNat + 1)
  rw [Nat.add_sub_cancel] at nonempty
  have some_bytes : (block file (s.expectedBlockNumber.toNat + 1)).length ≠ 0 :=
    fun h => nonempty.mpr left (List.length_eq_zero_iff.mp h)
  refine ⟨number, ?_⟩
  simp [Client.writeNext, read, some_bytes, LocalIO.ok, dataDatagram_eq]

/-- Nothing is read: the loop is left. -/
theorem writeNext_empty (src : Addr) {file : List UInt8} {s : Client.WriteLoop}
    (empty : readDataBlock (some file) (s.expectedBlockNumber + 1) = []) :
    Client.writeNext (some file) src s .ok =
      ({ s with expectedBlockNumber := s.expectedBlockNumber + 1, status := .failed }, []) := by
  simp [Client.writeNext, empty]

theorem writeNext_progress (src : Addr) {file : List UInt8} {s : Client.WriteLoop}
    (limit : s.expectedBlockNumber.toNat < 65535) (live : s.status = .sending)
    (full : s.expectedBlockNumber.toNat * 512 ≤ file.length) :
    ClientProgress file ((Client.writeNext (some file) src s .ok).1,
      Blocks.first 512 file s.expectedBlockNumber.toNat ++
        payloads (Client.writeNext (some file) src s .ok).2) := by
  have brief := block_short_iff file (b := s.expectedBlockNumber.toNat + 1) (by omega)
  by_cases left : s.expectedBlockNumber.toNat * 512 < file.length
  · obtain ⟨number, next⟩ := writeNext_block src limit left
    have sent := (Blocks.first_succ 512 file s.expectedBlockNumber.toNat).symm
    rw [next, payloads_data]
    by_cases short : (block file (s.expectedBlockNumber.toNat + 1)).length < 512
    · exact Or.inr ⟨by simp [short], sent.trans (first_eq_whole_of_short left short)⟩
    · have full := brief.not.mp short
      have reach : (s.expectedBlockNumber + 1).toNat * 512 ≤ file.length :=
        number ▸ Nat.le_of_not_lt full
      have parts : Blocks.first 512 file s.expectedBlockNumber.toNat ++
          [block file (s.expectedBlockNumber.toNat + 1)] =
            Blocks.first 512 file (s.expectedBlockNumber + 1).toNat :=
        sent.trans (congrArg (Blocks.first 512 file) number.symm)
      exact Or.inl ⟨by simp [short, live], reach, parts⟩
  · have empty : readDataBlock (some file) (s.expectedBlockNumber + 1) = [] := by
      by_cases zero : s.expectedBlockNumber + 1 = 0
      · rw [zero, readDataBlock_zero]
      · rw [readDataBlock_pos file zero]
        refine not_not.mp fun h => left ?_
        have reach := (block_nonempty_iff file _).mp h
        rwa [succ_toNat limit, Nat.add_sub_cancel] at reach
    rw [writeNext_empty src empty]
    refine Or.inr ⟨by simp, ?_⟩
    rw [← first_eq_whole (b := s.expectedBlockNumber.toNat) (by omega)]
    exact List.append_nil _

/-- An acceptable acknowledgement makes the client send its next block. -/
theorem clientStep_ack (file : List UInt8) {s : Client.WriteLoop} {src : Addr} {d : List UInt8}
    (accepts : ClientAccepts s (.datagram src d)) :
    ∃ a, (Client.writeReactor (some file)).react s (.datagram src d, .ok) =
      ((Client.writeNext (some file) src ⟨s.expectedBlockNumber, maxRetry, false, a, s.status⟩
          .ok).1,
        examineOpcode ++ examineNumber ++ (Client.writeNext (some file) src
          ⟨s.expectedBlockNumber, maxRetry, false, a, s.status⟩ .ok).2) := by
  obtain ⟨verified, op, num⟩ := accepts
  exact Client.writeStep_ack (some file) .ok verified op num

theorem client_progress {file : List UInt8} (bound : file.length < 65535 * 512)
    (t : Client.WriteLoop × List (List UInt8)) (e : Recv)
    (enabled : (acknowledged (Client.writeReactor (some file)) ClientAccepts).enabled t e)
    (progress : ClientProgress file t) : ClientProgress file
      ((acknowledged (Client.writeReactor (some file)) ClientAccepts).step t e) := by
  obtain ⟨running, accepts⟩ := enabled
  have live : t.1.status = .sending := of_decide_eq_true running
  obtain ⟨_, full, sent⟩ := progress.resolve_right (fun h => h.1 live)
  cases e with
  | timeout => exact False.elim accepts
  | datagram src d =>
    obtain ⟨a, turn⟩ := clientStep_ack file accepts
    simp only [acknowledged, turn, sent]
    rw [payloads_consult]
    exact writeNext_progress src (s := ⟨t.1.expectedBlockNumber, maxRetry, false, a, t.1.status⟩)
      (show t.1.expectedBlockNumber.toNat < 65535 by omega) live full

theorem clientStart_progress (listening : Addr) (file : List UInt8) :
    ClientProgress file (Client.WriteLoop.start listening, []) := by
  refine Or.inl ⟨rfl, ?_, rfl⟩
  simp [Client.WriteLoop.start]

/-- The acknowledgement the client waits for, from the address it knows. -/
def nextAck (s : Client.WriteLoop) : Recv :=
  .datagram s.serverAddress (ackDatagram s.expectedBlockNumber)

theorem nextAck_accepted (s : Client.WriteLoop) : ClientAccepts s (nextAck s) := by
  have size : 4 ≤ (header 4 s.expectedBlockNumber).length := Nat.le_refl _
  have op := opcodeOf_header 4 s.expectedBlockNumber []
  have num := numberOf_header 4 s.expectedBlockNumber []
  rw [List.append_nil] at op num
  refine ⟨?_, ?_, ?_⟩
  · unfold Client.verifySource
    cases s.initialPacket <;> simp
  · rw [ackDatagram_eq, opcodeAt_fill _ (by omega), op]
    rfl
  · rw [ackDatagram_eq, recvBlockNumberAt_fill _ size, num]

/-- Every accepted acknowledgement moves the client's counter. -/
theorem client_counts {file : List UInt8} (bound : file.length < 65535 * 512)
    {t : Client.WriteLoop × List (List UInt8)} (progress : ClientProgress file t)
    (live : t.1.status = .sending) :
    ((acknowledged (Client.writeReactor (some file)) ClientAccepts).step t
      (nextAck t.1)).1.expectedBlockNumber.toNat = t.1.expectedBlockNumber.toNat + 1 := by
  obtain ⟨_, full, _⟩ := progress.resolve_right (fun h => h.1 live)
  obtain ⟨a, turn⟩ := clientStep_ack file (nextAck_accepted t.1)
  have counter : ∀ s : Client.WriteLoop, (Client.writeNext (some file) t.1.serverAddress s
      .ok).1.expectedBlockNumber = s.expectedBlockNumber + 1 := by
    intro s
    simp only [Client.writeNext]
    split
    · rfl
    · split <;> rfl
  change UInt16.toNat ((Client.writeReactor (some file)).react t.1
    (nextAck t.1, .ok)).1.expectedBlockNumber = _
  rw [nextAck, turn, counter]
  exact succ_toNat (n := t.1.expectedBlockNumber) (by omega)

/-- Some sequence of acknowledgements takes the client out of its loop. -/
theorem client_ends (listening : Addr) {file : List UInt8} (bound : file.length < 65535 * 512) :
    ∃ es t, Run (acknowledged (Client.writeReactor (some file)) ClientAccepts)
      (Client.WriteLoop.start listening, []) es t ∧ t.1.status ≠ .sending := by
  have reach : ∀ k, ∃ es t, Run (acknowledged (Client.writeReactor (some file)) ClientAccepts)
      (Client.WriteLoop.start listening, []) es t ∧
      (t.1.status ≠ .sending ∨ t.1.expectedBlockNumber.toNat = k) := by
    intro k
    induction k with
    | zero => exact ⟨[], _, .refl _, Or.inr rfl⟩
    | succ k ih =>
      obtain ⟨es, t, run, ended | counted⟩ := ih
      · exact ⟨es, t, run, Or.inl ended⟩
      · by_cases live : t.1.status = .sending
        · have progress : ClientProgress file t :=
            run.invariant (client_progress bound) (clientStart_progress listening file)
          have enabled : (acknowledged (Client.writeReactor (some file)) ClientAccepts).enabled t
              (nextAck t.1) := ⟨decide_eq_true live, nextAck_accepted t.1⟩
          refine ⟨_, _, .snoc run enabled, Or.inr ?_⟩
          rw [client_counts bound progress live, counted]
        · exact ⟨es, t, run, Or.inl live⟩
  obtain ⟨es, t, run, ended | counted⟩ := reach 65535
  · exact ⟨es, t, run, ended⟩
  · refine ⟨es, t, run, fun live => ?_⟩
    have progress : ClientProgress file t :=
      run.invariant (client_progress bound) (clientStart_progress listening file)
    obtain ⟨_, full, _⟩ := progress.resolve_right (fun h => h.1 live)
    omega

theorem whole_terminated {file : List UInt8} (odd : file.length % 512 ≠ 0) :
    Terminated file (Blocks.whole 512 file) := by
  have ended := (Blocks.whole_shortEnded_iff (by decide) file).mpr odd
  exact ⟨Blocks.whole_flatten (by decide) file, ended, receivers_stop ended⟩

end TFTP.ShortBlocks
