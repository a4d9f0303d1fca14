import TFTP.BlockCeiling
import TFTP.HonestPeers
import TFTP.PacketAgreement

/-!
# Downloads recover

Whatever the network has lost, repeated or delayed, the two parties of a download are at
most one block apart, and as long as both are in their loops the network can still bring
the download to its end: a repeated block makes the client acknowledge it once more, to the
server's address.
-/

namespace TFTP.DownloadRecovery

open Octets Packet Sockets Runs Download HonestPeers BlockCeiling

def dataPacket (file : List UInt8) (n : UInt16) : List UInt8 := header 3 n ++ block file n.toNat

section Server

variable (client : Addr) (file : List UInt8) {s : Server.SendLoop}

/-- With `sendto` at work, the loop waits for an answer only to what it has just sent. -/
theorem readTop_ok (pos : s.blockNumber ≠ 0) (live : s.status = .sending) :
    ((Server.readTop client (some file) .ok s).1.status ≠ .sending ∧
      (Server.readTop client (some file) .ok s).1.blockNumber = s.blockNumber ∧
      (Server.readTop client (some file) .ok s).2 = []) ∨
    (s.retry ≠ 0 ∧ block file s.blockNumber.toNat ≠ [] ∧
      Server.readTop client (some file) .ok s =
        ({ s with dataSize := (block file s.blockNumber.toNat).length },
          [.send client (dataPacket file s.blockNumber)])) := by
  simp only [Server.readTop, Server.sendTop, readDataBlock_pos file pos]
  by_cases retry : s.retry = 0
  · simp [retry]
  · by_cases empty : block file s.blockNumber.toNat = []
    · simp [retry, empty]
    · simp [retry, empty, LocalIO.ok, dataPacket, dataDatagram_eq, live]

/-- The packets of a turn are complaints and the current block, which goes out if the loop
goes on. The counter moves only over the acknowledgement it waits for. -/
structure Turned (client : Addr) (file : List UInt8) (s : Server.SendLoop) (e : Recv)
    (turn : Server.SendLoop × List Effect) : Prop where
  packets : ∀ p ∈ sentTo client turn.2, p = dataPacket file turn.1.blockNumber ∨ Complaint p
  sent : turn.1.status = .sending → dataPacket file turn.1.blockNumber ∈ sentTo client turn.2
  number : turn.1.blockNumber = s.blockNumber ∨
    ∃ src d, e = .datagram src d ∧ Server.ackOpcodeAt (s.ackBuffer.fill d) = 4 ∧
      Server.ackBlockNumberAt (s.ackBuffer.fill d) = s.blockNumber ∧
      turn.1.blockNumber = s.blockNumber + 1

theorem sentTo_examine (dst : Addr) (rest : List Effect) :
    sentTo dst (examineOpcode ++ examineNumber ++ rest) = sentTo dst rest := by
  simp [sentTo, examineOpcode, examineNumber]

theorem readTop_turned (pos : s.blockNumber ≠ 0) (live : s.status = .sending) :
    (∀ p ∈ sentTo client (Server.readTop client (some file) .ok s).2,
        p = dataPacket file s.blockNumber) ∧
      ((Server.readTop client (some file) .ok s).1.status = .sending →
        dataPacket file s.blockNumber ∈
          sentTo client (Server.readTop client (some file) .ok s).2) ∧
      (Server.readTop client (some file) .ok s).1.blockNumber = s.blockNumber := by
  rcases readTop_ok client file pos live with ⟨left, number, silent⟩ | ⟨_, _, top⟩
  · rw [silent]
    exact ⟨fun p mem => absurd mem List.not_mem_nil, fun again => absurd again left, number⟩
  · rw [top]
    exact ⟨fun p mem => by simpa [sentTo] using mem, fun _ => by simp [sentTo], rfl⟩

/-- Any other packet is answered by a complaint and the current block. -/
theorem readStep_other (src : Addr) (d : List UInt8)
    (other : ¬ (Server.ackOpcodeAt (s.ackBuffer.fill d) = 4 ∧
      Server.ackBlockNumberAt (s.ackBuffer.fill d) = s.blockNumber)) :
    Server.readStep client (some file) s (.datagram src d) .ok =
      let next := Server.readTop client (some file) .ok
        { s with ackBuffer := s.ackBuffer.fill d, retry := maxRetry }
      (next.1, examineOpcode ++ examineNumber ++ ([Server.illegalAck client] ++ next.2)) := by
  have cap : ¬ received 4 d > maxPacketSize :=
    Nat.not_lt.mpr (Nat.le_trans (received_le 4 d) (by decide))
  simp only [Server.readStep, Server.sendStep, cap, if_false, not_and_or.mp other, if_true,
    Server.readManner, List.append_assoc]
  rfl

variable {file}

theorem readStep_turned (early : Early file s) (live : s.status = .sending) (e : Recv) :
    Turned client file s e (Server.readStep client (some file) s e .ok) := by
  cases e with
  | timeout =>
    obtain ⟨packets, sent, number⟩ := readTop_turned client file
      (s := { s with retry := s.retry - 1 }) early.pos live
    exact ⟨fun p mem => Or.inl ((packets p mem).trans (congrArg _ number.symm)),
      fun again => (congrArg (dataPacket file) number).symm ▸ sent again, Or.inl number⟩
  | datagram src d =>
    by_cases reads : Server.ackOpcodeAt (s.ackBuffer.fill d) = 4 ∧
        Server.ackBlockNumberAt (s.ackBuffer.fill d) = s.blockNumber
    · obtain ⟨_, _, pos⟩ := next_below early.below reads.2
      rw [Server.readStep, Server.sendStep_ack Server.readManner client (some file) src .ok
        reads.1 reads.2]
      split
      · refine ⟨fun p mem => ?_, fun again => (by cases again), Or.inl rfl⟩
        rw [← List.append_nil (examineOpcode ++ examineNumber), sentTo_examine] at mem
        cases mem
      · obtain ⟨packets, sent, number⟩ := readTop_turned client file
          (s := { s with
            ackBuffer := s.ackBuffer.fill d
            retry := maxRetry
            blockNumber := s.blockNumber + 1 }) pos live
        refine ⟨fun p mem => Or.inl ?_, fun again => ?_,
          Or.inr ⟨src, d, rfl, reads.1, reads.2, number⟩⟩
        · rw [sentTo_examine] at mem
          exact (packets p mem).trans (congrArg _ number.symm)
        · rw [sentTo_examine]
          exact (congrArg (dataPacket file) number).symm ▸ sent again
    · obtain ⟨packets, sent, number⟩ := readTop_turned client file
        (s := { s with ackBuffer := s.ackBuffer.fill d, retry := maxRetry }) early.pos live
      rw [readStep_other client file src d reads]
      refine ⟨fun p mem => ?_, fun again => ?_, Or.inl number⟩
      · rw [sentTo_examine] at mem
        rcases List.mem_append.mp (mem_sentTo.mp mem) with complaint | sent
        · exact Or.inr (sendError_complaint (List.mem_singleton.mp complaint))
        · exact Or.inl ((packets p (mem_sentTo.mpr sent)).trans (congrArg _ number.symm))
      · rw [sentTo_examine]
        refine mem_sentTo.mpr (List.mem_append_right _ ?_)
        exact (congrArg (dataPacket file) number).symm ▸ mem_sentTo.mp (sent again)

end Server

/-- Every acknowledgement is of the last block accepted. -/
theorem readStep_acknowledges (member : Addr) (s : Client.ReadLoop) (e : Recv) (io : LocalIO)
    {dst : Addr} {p : List UInt8} (sent : .send dst p ∈ (Client.readStep member s e io).2) :
    p = ackDatagram ((Client.readStep member s e io).1.expectedBlockNumber - 1) ∨ Complaint p := by
  cases e with
  | timeout => cases sent
  | datagram src d =>
    have cap : ¬ received 516 d > maxPacketSize := Nat.not_lt.mpr (received_le 516 d)
    simp only [Client.readStep, cap, if_false] at sent ⊢
    cases verified : Client.verifySource s.serverAddress s.initialPacket src with
    | none =>
      simp only [verified] at sent
      exact Or.inr (sendError_complaint (List.mem_singleton.mp sent))
    | some a =>
      simp only [verified] at sent ⊢
      split_ifs at sent ⊢ with illegal short error number failed
      · simp [examineOpcode] at sent
        exact Or.inr (sendError_complaint sent)
      · simp [examineOpcode, examineNumber] at sent
      · simp [examineOpcode, examineNumber] at sent
      · simp [examineOpcode, examineNumber, sendACK] at sent
        exact Or.inl sent.2
      · simp [examineOpcode, examineNumber] at sent
        exact Or.inr (sendError_complaint sent)
      all_goals
        simp [examineOpcode, examineNumber, sendACK] at sent
        refine Or.inl (sent.2.trans ?_)
        simp [not_not.mp number]

/-- A block that was accepted before is acknowledged again, to the server's address. -/
theorem readStep_repeats (member : Addr) (s : Client.ReadLoop) {src a : Addr} {d : List UInt8}
    (io : LocalIO) (verified : Client.verifySource s.serverAddress s.initialPacket src = some a)
    (h4 : 4 ≤ d.length) (op : opcodeOf d = opcodeData)
    (num : numberOf d ≠ s.expectedBlockNumber) :
    Client.readStep member s (.datagram src d) io =
      ({ s with
          recievedBuffer := s.recievedBuffer.fill d
          retry := maxRetry
          serverAddress := a
          initialPacket := false },
        examineOpcode ++ examineNumber ++ [.payload ((received 516 d : Int) - 4)] ++
          [sendACK a (s.expectedBlockNumber - 1)]) := by
  have cap : ¬ received 516 d > maxPacketSize := Nat.not_lt.mpr (received_le 516 d)
  have nonneg : ¬ (received 516 d : Int) - 4 < 0 := by
    rw [received]
    omega
  have data : ¬ opcodeData = opcodeError := by decide
  simp only [Client.readStep, cap, if_false, verified, opcodeAt_fill _ (show 2 ≤ d.length by omega),
    op, data, recvBlockNumberAt_fill _ h4, num, nonneg, ne_eq, not_true_eq_false, and_false,
    not_false_eq_true, if_true]

theorem mem_extend {queue history new : List (List UInt8)} (kept : ∀ p ∈ queue, p ∈ history) :
    ∀ p ∈ queue ++ new, p ∈ history ++ new := by
  intro p mem
  exact (List.mem_append.mp mem).elim (fun old => List.mem_append_left _ (kept p old))
    (List.mem_append_right _)

theorem dataPacket_length (file : List UInt8) (n : UInt16) :
    (dataPacket file n).length = (block file n.toNat).length + 4 := by
  rw [dataPacket, List.length_append, header_length, Nat.add_comm]

theorem dataPacket_reads (file : List UInt8) (n : UInt16) :
    opcodeOf (dataPacket file n) = opcodeData ∧ numberOf (dataPacket file n) = n :=
  ⟨opcodeOf_header 3 n _, numberOf_header 3 n _⟩

/-- The client has accepted the server's current block, or everything before it. -/
structure Sync (S : Setup) (t : System) : Prop where
  inv : Inv S t
  early : Early S.file t.server
  packets : ∀ p ∈ t.toClient, (∃ n : UInt16, n ≠ 0 ∧ n.toNat ≤ t.server.blockNumber.toNat ∧
    p = dataPacket S.file n) ∨ Complaint p
  sent : t.server.status = .sending → ∀ n : UInt16, n ≠ 0 →
    n.toNat ≤ t.server.blockNumber.toNat → dataPacket S.file n ∈ t.toClient
  acks : ∀ p ∈ t.toServer, (∃ n : UInt16, n.toNat ≤ accepted t ∧ p = ackDatagram n) ∨ Complaint p
  behind : accepted t ≤ t.server.blockNumber.toNat
  close : t.server.blockNumber.toNat ≤ accepted t + 1
  knows : Knows S.handler t.client.serverAddress t.client.initialPacket
  full : t.client.status = .receiving → accepted t * 512 ≤ S.file.length

theorem start_sync {S : Setup} (home : S.handler.ip = S.listening.ip) (ackBuffer : Buffer 4) :
    Sync S (start S ackBuffer .ok) := by
  have ceiling := start_ceiling S ackBuffer .ok
  have none_yet : accepted (start S ackBuffer .ok) = 0 := by simp [accepted, start, writes]
  obtain ⟨packets, sent, number⟩ := readTop_turned S.client S.file
    (s := Server.SendLoop.start ackBuffer) (by decide : (1 : UInt16) ≠ 0) rfl
  have first : (start S ackBuffer .ok).server.blockNumber.toNat = 1 := by
    simp only [start, number]
    rfl
  have one : ∀ n : UInt16, n ≠ 0 → n.toNat ≤ 1 → n = 1 := fun n pos below =>
    UInt16.toNat_inj.mp (Nat.le_antisymm below (toNat_pos pos))
  constructor
  · exact start_inv S ackBuffer .ok
  · exact ceiling.server
  · intro p mem
    refine Or.inl ⟨1, by decide, Nat.le_of_eq first.symm, ?_⟩
    simp only [start] at mem
    exact packets p mem
  · intro live n pos below
    rw [first] at below
    rw [one n pos below]
    simp only [start] at live ⊢
    exact sent live
  · exact fun p mem => absurd mem List.not_mem_nil
  · omega
  · omega
  · exact ⟨home.symm, fun learned => (by cases learned)⟩
  · omega

/-- The server's check does not take an ERROR packet for an acknowledgement. -/
theorem complaint_unread (b : Buffer 4) (code : UInt16) (rest : List UInt8) :
    Server.ackOpcodeAt (b.fill (header 5 code ++ rest)) ≠ 4 := by
  have long : 4 ≤ (header 5 code ++ rest).length := by
    rw [List.length_append, header_length]
    exact Nat.le_add_right 4 _
  have first : (b.fill (header 5 code ++ rest)).get 0 = 0 :=
    b.fill_get_lt (header 5 code ++ rest) 0 (Nat.lt_of_lt_of_le (by decide) long)
  have second : (b.fill (header 5 code ++ rest)).get 1 = 5 :=
    b.fill_get_lt (header 5 code ++ rest) 1 (Nat.lt_of_lt_of_le (by decide) long)
  rw [Server.ackOpcodeAt, first, second]
  decide

/-- The acknowledgement of an earlier block is not read as that of the current one. -/
theorem acknowledged_current {S : Setup} {t : System} (sync : Sync S t) {d : List UInt8}
    (mem : d ∈ t.toServer) (op : Server.ackOpcodeAt (t.server.ackBuffer.fill d) = 4)
    (num : Server.ackBlockNumberAt (t.server.ackBuffer.fill d) = t.server.blockNumber) :
    accepted t = t.server.blockNumber.toNat := by
  rcases sync.acks d mem with ⟨n, few, rfl⟩ | complaint
  · have behind := sync.behind
    have below := sync.early.below
    have never := Server.ackBlockNumberAt_ne (t.server.ackBuffer.fill (ackDatagram n))
    have apart : t.server.blockNumber.toNat ≠ 128 := fun same =>
      never (num.trans (UInt16.toNat_inj.mp same))
    rw [ackDatagram_eq] at num
    have read := (PacketAgreement.ackCheck_fill t.server.ackBuffer n).2
    rw [(loadSigned_bytes_iff n).mpr (Or.inl (by omega))] at read
    rw [← read.symm.trans num] at behind ⊢
    omega
  · obtain ⟨code, rest, rfl⟩ := complaint_header complaint
    exact absurd op (complaint_unread t.server.ackBuffer code rest)

theorem server_sync {S : Setup} {t : System} (sync : Sync S t) {e : Recv}
    (enabled : Enabled S t (.server e .ok)) : Sync S (step S t (.server e .ok)) := by
  have live : t.server.status = .sending := by
    cases e with
    | timeout => exact enabled
    | datagram src d => exact enabled.1
  have turned := readStep_turned S.client sync.early live e
  obtain ⟨early, _⟩ := sendStep_early Server.readManner S.client sync.early live e .ok
  have behind := sync.behind
  have close := sync.close
  have below := sync.early.below
  have moved : (step S t (.server e .ok)).server.blockNumber = t.server.blockNumber ∨
      (accepted t = t.server.blockNumber.toNat ∧
        (step S t (.server e .ok)).server.blockNumber.toNat =
          t.server.blockNumber.toNat + 1) := by
    rcases turned.number with same | ⟨src, d, rfl, op, num, next⟩
    · exact Or.inl same
    · refine Or.inr ⟨acknowledged_current sync enabled.2 op num, ?_⟩
      rw [← (next_below below num).2.1, ← next]
      rfl
  have grown : t.server.blockNumber.toNat ≤
      (step S t (.server e .ok)).server.blockNumber.toNat := by
    rcases moved with same | ⟨_, next⟩
    · rw [same]
    · omega
  constructor
  · exact step_inv t (.server e .ok) enabled sync.inv
  · exact early
  · intro p mem
    rcases List.mem_append.mp mem with old | new
    · refine (sync.packets p old).imp_left ?_
      rintro ⟨n, pos, early, rfl⟩
      exact ⟨n, pos, Nat.le_trans early grown, rfl⟩
    · refine (turned.packets p new).imp_left fun current => ?_
      exact ⟨_, early.pos, Nat.le_refl _, current⟩
  · intro again n pos reach
    by_cases old : n.toNat ≤ t.server.blockNumber.toNat
    · exact List.mem_append_left _ (sync.sent live n pos old)
    · have current : n = (step S t (.server e .ok)).server.blockNumber := by
        apply UInt16.toNat_inj.mp
        rcases moved with same | ⟨_, next⟩
        · rw [same] at reach
          omega
        · omega
      rw [current]
      exact List.mem_append_right _ (turned.sent again)
  · exact sync.acks
  · exact Nat.le_trans behind grown
  · change _ ≤ accepted t + 1
    rcases moved with same | ⟨level, next⟩
    · rw [same]
      exact close
    · omega
  · exact sync.knows
  · exact sync.full

/-- The number of accepted blocks, as the last acknowledgement shows it. -/
theorem counter_pred {S : Setup} {t : System} (inv : Inv S t) :
    (t.client.expectedBlockNumber - 1).toNat = accepted t := by
  have pred : UInt16.ofNat (accepted t + 1) - 1 = UInt16.ofNat (accepted t) := by simp
  rw [inv.counter, pred, UInt16.toNat_ofNat']
  exact Nat.mod_eq_of_lt inv.bounded

/-- A client that has accepted the server's current block waits for the next one. -/
theorem level_number {S : Setup} {t : System} (inv : Inv S t)
    (level : accepted t = t.server.blockNumber.toNat) :
    t.server.blockNumber = t.client.expectedBlockNumber - 1 ∧
      t.server.blockNumber ≠ t.client.expectedBlockNumber := by
  constructor
  · apply UInt16.toNat_inj.mp
    rw [counter_pred inv, level]
  · intro same
    have value := congrArg UInt16.toNat inv.counter
    rw [← same, UInt16.toNat_ofNat', level] at value
    have small := t.server.blockNumber.toNat_lt
    omega

/-- The block the client waits for is the server's current one, if it is there at all. -/
theorem expected_current {S : Setup} {t : System} (sync : Sync S t) {d : List UInt8}
    (mem : d ∈ t.toClient) (op : opcodeOf d = opcodeData)
    (num : numberOf d = t.client.expectedBlockNumber) :
    d = dataPacket S.file t.client.expectedBlockNumber ∧
      t.client.expectedBlockNumber.toNat = accepted t + 1 ∧
      accepted t + 1 = t.server.blockNumber.toNat := by
  have close := sync.close
  rcases sync.packets d mem with ⟨n, pos, early, rfl⟩ | complaint
  · rw [(dataPacket_reads S.file n).2] at num
    subst num
    obtain ⟨_, value⟩ := counter_value sync.inv.counter sync.inv.bounded pos
    exact ⟨rfl, value, by omega⟩
  · rw [(complaint_reads complaint).2] at op
    exact absurd op (by decide)

theorem next_stores {S : Setup} {t : System} (sync : Sync S t) {d : List UInt8}
    (mem : d ∈ t.toClient) (op : opcodeOf d = opcodeData)
    (num : numberOf d = t.client.expectedBlockNumber) :
    Client.Stores t.client (.datagram S.handler d, .ok) := by
  obtain ⟨rfl, _⟩ := expected_current sync mem op num
  have size := dataPacket_length S.file t.client.expectedBlockNumber
  have header : 4 ≤ received 516 (dataPacket S.file t.client.expectedBlockNumber) := by
    rw [received]
    omega
  refine ⟨by rw [sync.knows.verified]; simp, header, ?_, ?_, rfl⟩
  · rw [opcodeAt_fill _ (by omega), op]
  · rw [recvBlockNumberAt_fill _ (by omega), num]

/-- The client stores the next block, which ends its loop if and only if it is short. -/
theorem client_stores {S : Setup} {t : System} (sync : Sync S t) {d : List UInt8}
    (mem : d ∈ t.toClient) (op : opcodeOf d = opcodeData)
    (num : numberOf d = t.client.expectedBlockNumber) :
    accepted (step S t (.client (.datagram S.handler d) .ok)) = accepted t + 1 ∧
      (step S t (.client (.datagram S.handler d) .ok)).client.status =
        if S.file.length < (accepted t + 1) * 512 then .completed else t.client.status := by
  obtain ⟨rfl, value, _⟩ := expected_current sync mem op num
  have fits := block_length_le S.file (accepted t + 1)
  have size := dataPacket_length S.file t.client.expectedBlockNumber
  rw [value] at size
  have short := block_short_iff S.file (b := accepted t + 1) (by omega)
  have accepts := Client.readStep_accept S.member t.client sync.knows.verified (by omega)
    (by omega) op num (show LocalIO.ok.writeFails = false from rfl)
  have effects := Client.readStep_stores S.member t.client (next_stores sync mem op num)
  constructor
  · simp only [accepted, step, writes_append, List.length_append, effects]
    simp [writes, examineOpcode, examineNumber, sendACK]
  · simp only [step, accepts]
    exact if_congr (by omega) rfl rfl

theorem client_sync {S : Setup} {t : System} (sync : Sync S t) {e : Recv}
    (enabled : (downloads S).enabled t (.client e .ok)) :
    Sync S (step S t (.client e .ok)) := by
  obtain ⟨enabled, _, genuine⟩ := enabled
  have inv := step_inv t (.client e .ok) enabled sync.inv
  have live : t.client.status = .receiving := by
    cases e with
    | timeout => exact enabled
    | datagram src d => exact enabled.1
  have knows : Knows S.handler (step S t (.client e .ok)).client.serverAddress
      (step S t (.client e .ok)).client.initialPacket := by
    cases e with
    | timeout => exact sync.knows
    | datagram src d =>
      obtain ⟨rfl, _⟩ := genuine src d rfl
      obtain ⟨address, initial, _⟩ :=
        Client.readStep_verified S.member t.client d .ok sync.knows.verified
      exact ⟨congrArg Addr.ip address, fun _ => address⟩
  have count : accepted (step S t (.client e .ok)) =
      accepted t + (writes (Client.readStep S.member t.client e .ok).2).length := by
    simp [accepted, step, writes_append]
  have acks : ∀ p ∈ (step S t (.client e .ok)).toServer,
      (∃ n : UInt16, n.toNat ≤ accepted (step S t (.client e .ok)) ∧ p = ackDatagram n) ∨
        Complaint p := by
    intro p mem
    rcases List.mem_append.mp mem with old | new
    · refine (sync.acks p old).imp_left ?_
      rintro ⟨n, few, rfl⟩
      exact ⟨n, by omega, rfl⟩
    · refine (readStep_acknowledges S.member t.client e .ok (mem_sentTo.mp new)).imp_left
        fun last => ⟨_, Nat.le_of_eq (counter_pred inv), last⟩
  have behind := sync.behind
  have close := sync.close
  rcases Client.readStep_cases S.member t.client e .ok with quiet | ⟨src, d, rfl, acc⟩
  · have same : accepted (step S t (.client e .ok)) = accepted t := by simp [count, quiet.writes]
    refine ⟨inv, sync.early, sync.packets, sync.sent, acks, ?_, ?_, knows, fun _ => ?_⟩
    · rw [same]
      exact behind
    · rw [same]
      exact close
    · rw [same]
      exact sync.full live
  · obtain ⟨rfl, mem⟩ := genuine src d rfl
    have h4 : 4 ≤ d.length := Nat.le_trans acc.header (Nat.min_le_right _ _)
    have op := acc.opcode
    have num := acc.number
    rw [opcodeAt_fill _ (by omega)] at op
    rw [recvBlockNumberAt_fill _ h4] at num
    obtain ⟨more, status⟩ := client_stores sync mem op num
    obtain ⟨_, _, current⟩ := expected_current sync mem op num
    refine ⟨inv, sync.early, sync.packets, sync.sent, acks, ?_, ?_, knows, fun again => ?_⟩
    · rw [more]
      exact Nat.le_of_eq current
    · rw [more]
      exact Nat.le_succ_of_le close
    · rw [more]
      by_contra left
      rw [status, if_pos (by omega)] at again
      cases again

theorem downloads_sync {S : Setup} (t : System) (a : Action)
    (enabled : (downloads S).enabled t a) (sync : Sync S t) :
    Sync S ((downloads S).step t a) := by
  rcases a with ⟨e, io⟩ | ⟨e, io⟩
  · obtain ⟨enabled, rfl⟩ := enabled
    exact server_sync sync enabled
  · obtain rfl : io = .ok := enabled.2.1
    exact client_sync sync enabled

/-- Both parties are in their loops. -/
structure Live (S : Setup) (t : System) : Prop where
  sync : Sync S t
  server : t.server.status = .sending
  client : t.client.status = .receiving

/-- The acknowledgement of a full block brings the server to the next one, if there is any. -/
theorem server_advances {S : Setup} {s : Server.SendLoop} (early : Early S.file s)
    (serving : s.status = .sending) (low : s.blockNumber.toNat ≤ 127)
    (more : s.blockNumber.toNat * 512 < S.file.length) :
    (s.blockNumber + 1).toNat = s.blockNumber.toNat + 1 ∧
      Server.readStep S.client (some S.file) s
          (.datagram S.client (ackDatagram s.blockNumber)) .ok =
        ({ blockNumber := s.blockNumber + 1
           ackBuffer := s.ackBuffer.fill (ackDatagram s.blockNumber)
           retry := maxRetry
           dataSize := (block S.file (s.blockNumber.toNat + 1)).length
           status := .sending },
          examineOpcode ++ examineNumber ++
            [.send S.client (dataPacket S.file (s.blockNumber + 1))]) := by
  obtain ⟨op, num⟩ := PacketAgreement.ackCheck_fill s.ackBuffer s.blockNumber
  rw [(loadSigned_bytes_iff s.blockNumber).mpr (Or.inl (by omega))] at num
  rw [← ackDatagram_eq] at op num
  obtain ⟨_, next, _⟩ := next_below early.below num
  have value := toNat_pos early.pos
  have short := block_short_iff S.file value
  have size := early.size serving
  refine ⟨next, ?_⟩
  rw [Server.readStep, Server.sendStep_ack Server.readManner S.client (some S.file) S.client .ok
    op num, if_neg (by omega), Server.sendTop_block Server.readManner S.client
    (show maxRetry ≠ 0 by decide) next more, dataPacket, next, serving]

/-- The client hears its last block again and repeats the acknowledgement, which the server
takes for the end of the block. -/
theorem repeated {S : Setup} (few : S.file.length < 65536) (odd : S.file.length % 512 ≠ 0)
    {t : System} (live : Live S t) (level : accepted t = t.server.blockNumber.toNat) :
    ∃ acts u, Run (downloads S) t acts u ∧ Live S u ∧ accepted u = accepted t ∧
      accepted u + 1 = u.server.blockNumber.toNat := by
  obtain ⟨sync, serving, receiving⟩ := live
  have full := sync.full receiving
  have pos := sync.early.pos
  have there := sync.sent serving _ pos (Nat.le_refl _)
  obtain ⟨op, number⟩ := dataPacket_reads S.file t.server.blockNumber
  obtain ⟨again, passed⟩ := level_number sync.inv level
  have old : numberOf (dataPacket S.file t.server.blockNumber) ≠ t.client.expectedBlockNumber :=
    fun same => passed (number.symm.trans same)
  have h4 : 4 ≤ (dataPacket S.file t.server.blockNumber).length := by
    rw [dataPacket_length]
    omega
  have repeats := readStep_repeats S.member t.client .ok sync.knows.verified h4 op old
  let hear : Action := .client (.datagram S.handler (dataPacket S.file t.server.blockNumber)) .ok
  have heard : (downloads S).enabled t hear := by
    refine ⟨⟨receiving, fun _ => ⟨rfl, there⟩⟩, rfl, ?_⟩
    rintro _ _ ⟨⟩
    exact ⟨rfl, there⟩
  have sync₁ : Sync S (step S t hear) := downloads_sync t hear heard sync
  have same : accepted (step S t hear) = accepted t := by
    rw [← counter_pred sync₁.inv, ← counter_pred sync.inv]
    simp only [step, hear, repeats]
  have there₁ : ackDatagram t.server.blockNumber ∈ (step S t hear).toServer := by
    rw [again]
    refine List.mem_append_right _ (mem_sentTo.mpr ?_)
    rw [repeats]
    exact List.mem_append_right _ (List.mem_singleton.mpr rfl)
  let reply : Action := .server (.datagram S.client (ackDatagram t.server.blockNumber)) .ok
  have replied : (downloads S).enabled (step S t hear) reply := ⟨⟨serving, there₁⟩, rfl⟩
  have sync₂ : Sync S (step S (step S t hear) reply) := downloads_sync _ reply replied sync₁
  obtain ⟨next, advances⟩ :=
    server_advances (S := S) sync.early serving (by omega) (by rw [← level]; omega)
  have turn : (step S (step S t hear) reply).server = _ := congrArg Prod.fst advances
  refine ⟨[] ++ [hear] ++ [reply], step S (step S t hear) reply,
    .snoc (.snoc (.refl _) heard) replied, ⟨sync₂, by rw [turn], ?_⟩, same, ?_⟩
  · simp only [step, hear, reply, repeats]
    exact receiving
  · change accepted (step S t hear) + 1 = _
    rw [same, level, turn]
    exact next.symm

/-- The current block arrives. -/
theorem delivered {S : Setup} {t : System} (live : Live S t)
    (current : accepted t + 1 = t.server.blockNumber.toNat) :
    ∃ acts u, Run (downloads S) t acts u ∧ (u.client.status = .completed ∨
      (Live S u ∧ accepted u = accepted t + 1)) := by
  obtain ⟨sync, serving, receiving⟩ := live
  have there := sync.sent serving _ sync.early.pos (Nat.le_refl _)
  obtain ⟨op, number⟩ := dataPacket_reads S.file t.server.blockNumber
  have expected : t.server.blockNumber = t.client.expectedBlockNumber := by
    apply UInt16.toNat_inj.mp
    rw [sync.inv.counter, UInt16.toNat_ofNat', current]
    exact (Nat.mod_eq_of_lt t.server.blockNumber.toNat_lt).symm
  rw [expected] at there number
  let hear : Action := .client (.datagram S.handler
    (dataPacket S.file t.client.expectedBlockNumber)) .ok
  have heard : (downloads S).enabled t hear := by
    refine ⟨⟨receiving, fun _ => ⟨rfl, there⟩⟩, rfl, ?_⟩
    rintro _ _ ⟨⟩
    exact ⟨rfl, there⟩
  have sync₁ : Sync S (step S t hear) := downloads_sync t hear heard sync
  obtain ⟨more, status⟩ := client_stores sync there (expected ▸ op) number
  refine ⟨[] ++ [hear], step S t hear, .snoc (.refl _) heard, ?_⟩
  by_cases last : S.file.length < (accepted t + 1) * 512
  · exact Or.inl (status.trans (if_pos last))
  · exact Or.inr ⟨⟨sync₁, serving, (status.trans (if_neg last)).trans receiving⟩, more⟩

theorem live_completes {S : Setup} (few : S.file.length < 65536) (odd : S.file.length % 512 ≠ 0)
    {t : System} (live : Live S t) :
    ∃ acts u, Run (downloads S) t acts u ∧ u.client.status = .completed := by
  refine Run.reaches (P := Live S) (fun u => S.file.length / 512 + 1 - accepted u) ?_ live
  intro t live
  have full := live.sync.full live.client
  have behind := live.sync.behind
  have close := live.sync.close
  have less : ∀ k, k = accepted t + 1 →
      S.file.length / 512 + 1 - k < S.file.length / 512 + 1 - accepted t := by omega
  by_cases level : accepted t = t.server.blockNumber.toNat
  · obtain ⟨acts, u, run, live', same, current⟩ := repeated few odd live level
    obtain ⟨acts', v, run', done | ⟨live'', more⟩⟩ := delivered live' current
    · exact ⟨_, v, run.trans run', Or.inl done⟩
    · exact ⟨_, v, run.trans run', Or.inr ⟨live'', less _ (by omega)⟩⟩
  · obtain ⟨acts, u, run, done | ⟨live', more⟩⟩ := delivered live (by omega)
    · exact ⟨_, u, run, Or.inl done⟩
    · exact ⟨_, u, run, Or.inr ⟨live', less _ more⟩⟩

/-- In every reachable state in which neither party has left its loop, the network can
still bring the whole file to the client, unless the file is one that no run brings there. -/
theorem download_recovers_iff {S : Setup} (home : S.handler.ip = S.listening.ip)
    (ackBuffer : Buffer 4) {acts : List Action} {t : System}
    (run : Run (downloads S) (start S ackBuffer .ok) acts t)
    (serving : t.server.status = .sending) (receiving : t.client.status = .receiving) :
    (∃ acts' u, Run (downloads S) t acts' u ∧ u.client.status = .completed ∧
      u.client.content = S.file) ↔ S.file.length < 65536 ∧ S.file.length % 512 ≠ 0 := by
  constructor
  · rintro ⟨acts', u, run', done, _⟩
    have ceiling : Ceiling S u :=
      (run.trans run').unrestrict.invariant step_ceiling (start_ceiling S ackBuffer .ok)
    exact ceiling.completed done
  · rintro ⟨few, odd⟩
    have sync : Sync S t := run.invariant downloads_sync (start_sync home ackBuffer)
    obtain ⟨acts', u, run', done⟩ := live_completes few odd ⟨sync, serving, receiving⟩
    have inv : Inv S u := run'.unrestrict.invariant step_inv sync.inv
    exact ⟨acts', u, run', done, inv.whole done⟩

/-- The server has waited in vain. -/
theorem download_recovers_iff_one_byte :
    ∃ t, Run (downloads oneByte) (start oneByte (Buffer.zero 4) .ok)
        ([] ++ [.server .timeout .ok]) t ∧
      ∃ acts' u, Run (downloads oneByte) t acts' u ∧ u.client.status = .completed ∧
        u.client.content = [7] := by
  have run : Run (downloads oneByte) (start oneByte (Buffer.zero 4) .ok)
      ([] ++ [.server .timeout .ok])
      (step oneByte (start oneByte (Buffer.zero 4) .ok) (.server .timeout .ok)) :=
    .snoc (.refl _) ⟨rfl, rfl⟩
  exact ⟨_, run, (download_recovers_iff rfl (Buffer.zero 4) run (by decide) (by decide)).mpr
    ⟨by decide, by decide⟩⟩

end TFTP.DownloadRecovery
