import TFTP.GoodNetwork
import TFTP.OwnServer
import TFTP.PacketAgreement

/-!
# Where a download's acknowledgements go

`handleRRQRequest` learns the address of the server's thread and acknowledges a repeated
block to it. A block that is new is acknowledged to the member `clientAddress`, which no
code assigns. Where the member is the right address by chance, a download over a network
that loses and delays nothing takes every block once.
-/

namespace TFTP.AckAddress

open Octets Packet Sockets Runs Client OwnServer GoodNetwork

/-- The server's IP and the port of its first datagram. -/
def serverOf (listening : Addr) (es : List (Recv × LocalIO)) : Option Addr :=
  (firstPort listening.ip es).map fun port => ⟨listening.ip, port⟩

/-- Every packet that reads as an acknowledgement is sent to the server. -/
def AcksToServer (member listening : Addr) (es : List (Recv × LocalIO)) : Prop :=
  ∀ dst p, .send dst p ∈ ((readReactor member).feed (ReadLoop.start listening) es).2 →
    opcodeOf p = opcodeAck → some dst = serverOf listening es

/-- No turn stores a block. -/
def NothingStored (member listening : Addr) (es : List (Recv × LocalIO)) : Prop :=
  ∀ s e, (s, e) ∈ (readReactor member).turns (ReadLoop.start listening) es → ¬ Stores s e

/-- The address behind a test that was passed is the server's. -/
theorem verified_server {ip : UInt32} {port : Option UInt16} {es : List (Recv × LocalIO)} {a : Addr}
    (learned : Learned ip port es a false) : some a = port.map fun port => ⟨ip, port⟩ := by
  obtain ⟨rfl, known⟩ := learned
  rw [if_neg Bool.false_ne_true] at known
  rw [← known]
  rfl

/-- The acknowledgements of one turn go to the server unless the turn stores a block and
the member is another address. -/
theorem turn_acks (member : Addr) {ip : UInt32} {port : Option UInt16}
    {es : List (Recv × LocalIO)} {s : ReadLoop} {e : Recv × LocalIO}
    (learned : Learned ip port (e :: es) s.serverAddress s.initialPacket) :
    Learned ip port es (readStep member s e.1 e.2).1.serverAddress
        (readStep member s e.1 e.2).1.initialPacket ∧
      ((∀ dst p, .send dst p ∈ (readStep member s e.1 e.2).2 → opcodeOf p = opcodeAck →
          some dst = port.map fun port => ⟨ip, port⟩) ↔
        (Stores s e → some member = port.map fun port => ⟨ip, port⟩)) := by
  obtain ⟨e, io⟩ := e
  cases e with
  | timeout =>
    refine ⟨learned.timeout, iff_of_true (fun dst p sent => ?_) fun stores => False.elim stores⟩
    simp [readStep] at sent
  | datagram src d =>
    cases kept : fromServer ip port (.datagram src d, io) with
    | false =>
      obtain ⟨stranger, learned'⟩ := learned.foreign kept
      rw [readStep_stranger member s d io stranger]
      refine ⟨learned', iff_of_true (fun dst p sent ack => ?_)
        fun stores => absurd stranger stores.1⟩
      rw [(complaint_reads (sendError_complaint (List.mem_singleton.mp sent))).2] at ack
      exact absurd ack (by decide)
    | true =>
      obtain ⟨a, verified, learned'⟩ := learned.own kept
      obtain ⟨address, initial, _⟩ := readStep_verified member s d io verified
      rw [address, initial]
      refine ⟨learned', ?_⟩
      by_cases stores : Stores s (.datagram src d, io)
      · rw [readStep_stores member s stores]
        constructor
        · intro addressed _
          exact addressed member _ (List.mem_append_right _ (List.mem_cons_of_mem _
            (List.mem_singleton.mpr rfl))) (opcodeOf_ack _)
        · intro right dst p sent ack
          simp [examineOpcode, examineNumber, sendACK] at sent
          rw [sent.1]
          exact right stores
      · refine iff_of_true (fun dst p sent ack => ?_) fun stored => absurd stored stores
        rw [readStep_acks member s verified stores sent ack]
        exact verified_server learned'

theorem run_acks (member : Addr) {ip : UInt32} {port : Option UInt16}
    {es : List (Recv × LocalIO)} {s : ReadLoop}
    (learned : Learned ip port es s.serverAddress s.initialPacket) :
    (∀ dst p, .send dst p ∈ ((readReactor member).feed s es).2 → opcodeOf p = opcodeAck →
        some dst = port.map fun port => ⟨ip, port⟩) ↔
      ∀ t e, (t, e) ∈ (readReactor member).turns s es → Stores t e →
        some member = port.map fun port => ⟨ip, port⟩ := by
  induction es generalizing s with
  | nil => exact iff_of_true (fun dst p sent => nomatch sent) (fun t e mem => nomatch mem)
  | cons e es ih =>
    cases live : (readReactor member).running s with
    | false =>
      rw [(readReactor member).feed_stopped live]
      refine iff_of_true (fun dst p sent => nomatch sent) (fun t e mem => ?_)
      simp [Reactor.turns, live] at mem
    | true =>
      obtain ⟨learned', turn⟩ := turn_acks member learned
      have rest := ih learned'
      rw [(readReactor member).feed_cons live]
      simp only [Reactor.turns, live, if_true, List.mem_cons, Prod.mk.injEq, List.mem_append]
      constructor
      · rintro addressed t e' (⟨rfl, rfl⟩ | mem)
        · exact turn.mp fun dst p sent => addressed dst p (Or.inl sent)
        · exact rest.mp (fun dst p sent => addressed dst p (Or.inr sent)) t e' mem
      · rintro right dst p (sent | sent)
        · exact turn.mpr (right s e (Or.inl ⟨rfl, rfl⟩)) dst p sent
        · exact rest.mpr (fun t e' mem => right t e' (Or.inr mem)) dst p sent

/-- A download acknowledges to the server if and only if the member is the server's address
or no block is stored. -/
theorem acks_iff (member listening : Addr) (es : List (Recv × LocalIO)) :
    AcksToServer member listening es ↔
      some member = serverOf listening es ∨ NothingStored member listening es := by
  have learned : Learned listening.ip (firstPort listening.ip es) es
      (ReadLoop.start listening).serverAddress (ReadLoop.start listening).initialPacket :=
    ⟨rfl, by rw [ReadLoop.start, if_pos rfl]⟩
  refine (run_acks member learned).trans ⟨fun right => ?_, ?_⟩
  · by_cases known : some member = serverOf listening es
    · exact Or.inl known
    · exact Or.inr fun s e mem stores => known (right s e mem stores)
  · rintro (known | nothing) s e mem stores
    · exact known
    · exact absurd stores (nothing s e mem)

/-- The two loops, the packets under way and everything the server has sent. -/
structure Net where
  server : Server.SendLoop
  client : ReadLoop
  toClient : List (List UInt8)
  toServer : List (List UInt8)
  serverSent : List (Addr × List UInt8)

/-- A party gets the first packet of its queue, or waits in vain. -/
inductive Delivery where
  | server
  | client
  | serverTimeout
  | clientTimeout

def begin (S : Setup) (ackBuffer : Buffer 4) : Net :=
  let top := Server.readTop S.client (some S.file) .ok (.start ackBuffer)
  { server := top.1
    client := .start S.listening
    toClient := sentTo S.client top.2
    toServer := []
    serverSent := sends top.2 }

/-- Nothing is under way to a party that still listens. -/
def Silent (t : Net) : Prop :=
  (t.server.status = .sending → t.toServer = []) ∧ (t.client.status = .receiving → t.toClient = [])

def CanDeliver (t : Net) : Delivery → Prop
  | .server => t.server.status = .sending ∧ t.toServer ≠ []
  | .client => t.client.status = .receiving ∧ t.toClient ≠ []
  | .serverTimeout => t.server.status = .sending ∧ Silent t
  | .clientTimeout => t.client.status = .receiving ∧ Silent t

/-- The server's turn, the rest of its queue being `rest`. -/
def serverTurn (S : Setup) (t : Net) (e : Recv) (rest : List (List UInt8)) : Net :=
  let turn := Server.readStep S.client (some S.file) t.server e .ok
  { t with
    server := turn.1
    toServer := rest
    toClient := t.toClient ++ sentTo S.client turn.2
    serverSent := t.serverSent ++ sends turn.2 }

def clientTurn (S : Setup) (member : Addr) (t : Net) (e : Recv) (rest : List (List UInt8)) : Net :=
  let turn := readStep member t.client e .ok
  { t with
    client := turn.1
    toClient := rest
    toServer := t.toServer ++ sentTo S.handler turn.2 }

def deliver (S : Setup) (member : Addr) (t : Net) : Delivery → Net
  | .server =>
    match t.toServer with
    | [] => t
    | d :: rest => serverTurn S t (.datagram S.client d) rest
  | .client =>
    match t.toClient with
    | [] => t
    | d :: rest => clientTurn S member t (.datagram S.handler d) rest
  | .serverTimeout => serverTurn S t .timeout t.toServer
  | .clientTimeout => clientTurn S member t .timeout t.toClient

def network (S : Setup) (member : Addr) : Machine Net Delivery := ⟨CanDeliver, deliver S member⟩

/-- Blocks 1 to `sent`, once each. -/
def sentOnce (S : Setup) (sent : Nat) : List (Addr × List UInt8) :=
  (List.range sent).map fun k => (S.client, dataPacket S (k + 1))

theorem sentOnce_succ (S : Setup) (sent : Nat) :
    sentOnce S (sent + 1) = sentOnce S sent ++ [(S.client, dataPacket S (sent + 1))] := by
  rw [sentOnce, List.range_succ, List.map_append]
  rfl

/-- The server waits for the acknowledgement of a block. -/
structure Waiting (S : Setup) (t : Net) (k : Nat) : Prop where
  live : t.server.status = .sending
  number : t.server.blockNumber = UInt16.ofNat (k + 1)
  size : t.server.dataSize = (block S.file (k + 1)).length
  left : k * 512 < S.file.length
  sent : t.serverSent = sentOnce S (k + 1)

/-- What the client has learned of the server. -/
def Knows (S : Setup) (t : Net) : Prop :=
  verifySource t.client.serverAddress t.client.initialPacket S.handler = some S.handler

/-- A block is on its way to the client. -/
structure Offered (S : Setup) (t : Net) (k : Nat) : Prop where
  waiting : Waiting S t k
  client : t.client.status = .receiving
  expected : t.client.expectedBlockNumber = UInt16.ofNat (k + 1)
  knows : Knows S t
  toClient : t.toClient = [dataPacket S (k + 1)]
  toServer : t.toServer = []

/-- Its acknowledgement is on its way to the server. -/
structure Answered (S : Setup) (t : Net) (k : Nat) : Prop where
  waiting : Waiting S t k
  client : t.client.status =
    if (block S.file (k + 1)).length < 512 then .completed else .receiving
  expected : t.client.expectedBlockNumber = UInt16.ofNat (k + 1 + 1)
  retry : t.client.retry = maxRetry
  knows : Knows S t
  toClient : t.toClient = []
  toServer : t.toServer = [ackDatagram (UInt16.ofNat (k + 1))]

/-- The server is through; the client may wait for a block that does not come. -/
structure Over (S : Setup) (t : Net) (count : Nat) : Prop where
  server : t.server.status = .finished
  sent : t.serverSent = sentOnce S (blocks S)
  toClient : t.toClient = []
  waits : t.client.status = .receiving → 0 < t.client.retry
  bounded : count + t.client.retry ≤ 2 * blocks S + maxRetry

/-- How far the download is after so many deliveries. -/
def Stage (S : Setup) (t : Net) (count : Nat) : Prop :=
  (∃ k, count = 2 * k ∧ Offered S t k) ∨ (∃ k, count = 2 * k + 1 ∧ Answered S t k) ∨
    Over S t count

theorem readTop_block {S : Setup} {s : Server.SendLoop} {k : Nat} (retry : s.retry ≠ 0)
    (number : s.blockNumber = UInt16.ofNat (k + 1)) (small : k < 65535)
    (left : k * 512 < S.file.length) :
    Server.readTop S.client (some S.file) .ok s =
      ({ s with dataSize := (block S.file (k + 1)).length },
        [.send S.client (dataPacket S (k + 1))]) := by
  have value : s.blockNumber.toNat = k + 1 := by
    rw [number, toNat_ofNat (by omega)]
  rw [dataPacket, ← number]
  exact Server.sendTop_block _ _ retry value left

theorem ack_reads (b : Buffer 4) {k : Nat} (few : k < 128) :
    Server.ackOpcodeAt (b.fill (ackDatagram (UInt16.ofNat k))) = 4 ∧
      Server.ackBlockNumberAt (b.fill (ackDatagram (UInt16.ofNat k))) = UInt16.ofNat k := by
  have value : (UInt16.ofNat k).toNat = k := toNat_ofNat (by omega)
  obtain ⟨opcode, number⟩ := PacketAgreement.ackCheck_fill b (UInt16.ofNat k)
  rw [ackDatagram_eq]
  refine ⟨opcode, number.trans ((loadSigned_bytes_iff _).mpr (Or.inl ?_))⟩
  rw [value]
  omega

/-- The client stores the block and acknowledges it to the member. -/
theorem client_answers {S : Setup} {t : Net} {k : Nat} (offered : Offered S t k) :
    Answered S (deliver S S.handler t .client) k := by
  have fits := block_length_le S.file (k + 1)
  have size : (dataPacket S (k + 1)).length = (block S.file (k + 1)).length + 4 := by
    rw [dataPacket, List.length_append, header_length, Nat.add_comm]
  have short : (dataPacket S (k + 1)).length < 516 ↔ (block S.file (k + 1)).length < 512 := by
    omega
  have opcode : opcodeOf (dataPacket S (k + 1)) = opcodeData := opcodeOf_header 3 _ _
  have number : numberOf (dataPacket S (k + 1)) = t.client.expectedBlockNumber := by
    rw [offered.expected]
    exact numberOf_header 3 _ _
  have accepts := readStep_accept S.handler t.client offered.knows (by omega) (by omega) opcode
    number (show LocalIO.ok.writeFails = false from rfl)
  have header : 4 ≤ received 516 (dataPacket S (k + 1)) := by
    rw [received]
    omega
  have stores : Stores t.client (.datagram S.handler (dataPacket S (k + 1)), .ok) := by
    refine ⟨by rw [offered.knows]; simp, header, ?_, ?_, rfl⟩
    · rw [opcodeAt_fill _ (by omega), opcode]
    · rw [recvBlockNumberAt_fill _ (by omega), number]
  have effects := readStep_stores S.handler t.client stores
  rw [offered.expected] at effects
  simp only [deliver, offered.toClient, clientTurn, accepts, effects]
  constructor
  · exact ⟨offered.waiting.live, offered.waiting.number, offered.waiting.size,
      offered.waiting.left, offered.waiting.sent⟩
  · simp only [short, offered.client]
  · rw [offered.expected, ofNat_succ]
  · rfl
  · simp [Knows, verifySource]
  · rfl
  · simp [offered.toServer, sentTo, examineOpcode, examineNumber, sendACK]

section ServerTurn

variable {S : Setup} {t : Net} {k : Nat} (few : S.file.length ≤ 127 * 512)
  (answered : Answered S t k)
include few answered

theorem answer_reads :
    Server.ackOpcodeAt (t.server.ackBuffer.fill (ackDatagram (UInt16.ofNat (k + 1)))) = 4 ∧
      Server.ackBlockNumberAt (t.server.ackBuffer.fill (ackDatagram (UInt16.ofNat (k + 1)))) =
        t.server.blockNumber := by
  have left := answered.waiting.left
  rw [answered.waiting.number]
  exact ack_reads t.server.ackBuffer (by omega)

/-- Behind the last block, short or full, the loop is left without another packet. -/
theorem server_last (last : S.file.length ≤ (k + 1) * 512) :
    ∃ loop : Server.SendLoop, loop.status = .finished ∧
      Server.readStep S.client (some S.file) t.server
          (.datagram S.client (ackDatagram (UInt16.ofNat (k + 1)))) .ok =
        (loop, examineOpcode ++ examineNumber) := by
  have left := answered.waiting.left
  obtain ⟨opcode, number⟩ := answer_reads few answered
  rw [Server.readStep, Server.sendStep_ack Server.readManner S.client (some S.file) S.client .ok
    opcode number]
  by_cases short : t.server.dataSize < 512
  · rw [if_pos short]
    exact ⟨_, rfl, rfl⟩
  · have next : (t.server.blockNumber + 1).toNat = k + 1 + 1 := by
      rw [answered.waiting.number, ofNat_succ, toNat_ofNat (by omega)]
    rw [if_neg short]
    simp only [Server.sendTop_empty Server.readManner S.client
      (s := ⟨t.server.blockNumber + 1, _, maxRetry, t.server.dataSize, t.server.status⟩)
      (by simp [maxRetry]) next last, List.append_nil]
    exact ⟨_, rfl, rfl⟩

/-- The next block goes out. -/
theorem server_next (more : (k + 1) * 512 < S.file.length) :
    Server.readStep S.client (some S.file) t.server
        (.datagram S.client (ackDatagram (UInt16.ofNat (k + 1)))) .ok =
      ({ blockNumber := UInt16.ofNat (k + 1 + 1)
         ackBuffer := t.server.ackBuffer.fill (ackDatagram (UInt16.ofNat (k + 1)))
         retry := maxRetry
         dataSize := (block S.file (k + 1 + 1)).length
         status := .sending },
        examineOpcode ++ examineNumber ++ [.send S.client (dataPacket S (k + 1 + 1))]) := by
  have full : ¬ (block S.file (k + 1)).length < 512 := by
    rw [block_short_iff S.file (by omega)]
    omega
  obtain ⟨opcode, number⟩ := answer_reads few answered
  rw [Server.readStep, Server.sendStep_ack Server.readManner S.client (some S.file) S.client .ok
    opcode number, answered.waiting.size, if_neg full, answered.waiting.number, ofNat_succ,
    answered.waiting.live]
  have top := readTop_block (S := S) (k := k + 1)
    (s := ⟨UInt16.ofNat (k + 1 + 1), t.server.ackBuffer.fill (ackDatagram (UInt16.ofNat (k + 1))),
      maxRetry, (block S.file (k + 1)).length, .sending⟩) (by simp [maxRetry]) rfl (by omega) more
  rw [Server.readTop] at top
  simp only [top]

end ServerTurn

/-- The server goes on with the next block, or it is through. -/
theorem server_moves {S : Setup} (few : S.file.length ≤ 127 * 512) {t : Net} {k : Nat}
    (member : Addr) (answered : Answered S t k) :
    Offered S (deliver S member t .server) (k + 1) ∨
      Over S (deliver S member t .server) (2 * k + 1 + 1) := by
  have left := answered.waiting.left
  have brief := block_short_iff S.file (b := k + 1) (by omega)
  by_cases last : S.file.length ≤ (k + 1) * 512
  · have count : blocks S = k + 1 := Blocks.count_eq_of_last left last
    obtain ⟨loop, finished, turn⟩ := server_last few answered last
    refine Or.inr ?_
    simp only [deliver, answered.toServer, serverTurn, turn]
    constructor
    · exact finished
    · rw [count, ← answered.waiting.sent]
      exact List.append_nil _
    · simp [answered.toClient, sentTo, examineOpcode, examineNumber]
    · intro _
      rw [answered.retry]
      decide
    · rw [answered.retry, count]
      omega
  · have more := Nat.lt_of_not_le last
    refine Or.inl ?_
    simp only [deliver, answered.toServer, serverTurn, server_next few answered more]
    constructor
    · refine ⟨rfl, rfl, rfl, more, ?_⟩
      rw [answered.waiting.sent, sentOnce_succ S (k + 1)]
      rfl
    · rw [answered.client, if_neg (brief.not.mpr (by omega))]
    · exact answered.expected
    · exact answered.knows
    · simp [answered.toClient, sentTo, examineOpcode, examineNumber]
    · rfl

theorem over_waits {S : Setup} {t : Net} {count : Nat} (member : Addr) (ended : Over S t count)
    (enabled : CanDeliver t .clientTimeout) :
    Over S (deliver S member t .clientTimeout) (count + 1) := by
  have bounded := ended.bounded
  have waits := ended.waits enabled.1
  have retry : (readStep member t.client .timeout .ok).1.retry = t.client.retry - 1 := rfl
  constructor
  · exact ended.server
  · exact ended.sent
  · exact ended.toClient
  · intro live
    change (readStep member t.client .timeout .ok).1.status = .receiving at live
    change 0 < t.client.retry - 1
    simp only [readStep] at live
    split_ifs at live with zero
    omega
  · change count + 1 + (t.client.retry - 1) ≤ _
    omega

theorem begin_stage (S : Setup) (ackBuffer : Buffer 4) : Stage S (begin S ackBuffer) 0 := by
  have retry : (Server.SendLoop.start ackBuffer).retry ≠ 0 := by
    simp [Server.SendLoop.start, maxRetry]
  by_cases empty : S.file.length ≤ 0 * 512
  · refine Or.inr (Or.inr ?_)
    have top := Server.sendTop_empty Server.readManner S.client (b := 0) retry rfl empty
    have none : blocks S = 0 := by
      rw [blocks, Blocks.count]
      omega
    simp only [begin, Server.readTop, top]
    exact ⟨rfl, by rw [none]; rfl, rfl, fun _ => Nat.succ_pos 4, by rw [none]; exact Nat.le_refl 5⟩
  · refine Or.inl ⟨0, rfl, ?_⟩
    have left := Nat.lt_of_not_le empty
    have top := readTop_block (S := S) (k := 0) retry rfl (by decide) left
    simp only [begin, top]
    refine ⟨⟨rfl, rfl, rfl, left, rfl⟩, rfl, rfl, ?_, by simp [sentTo], rfl⟩
    simp [Knows, verifySource, ReadLoop.start, Setup.handler]

theorem deliver_stage {S : Setup} (few : S.file.length ≤ 127 * 512) {t : Net} {count : Nat}
    {a : Delivery} (stage : Stage S t count) (enabled : CanDeliver t a) :
    Stage S (deliver S S.handler t a) (count + 1) := by
  rcases stage with ⟨k, rfl, offered⟩ | ⟨k, rfl, answered⟩ | ended
  · have waits : t.toClient ≠ [] := by
      rw [offered.toClient]
      exact List.cons_ne_nil _ _
    cases a with
    | client => exact Or.inr (Or.inl ⟨k, rfl, client_answers offered⟩)
    | server => exact absurd offered.toServer enabled.2
    | serverTimeout => exact absurd (enabled.2.2 offered.client) waits
    | clientTimeout => exact absurd (enabled.2.2 offered.client) waits
  · have waits : t.toServer ≠ [] := by
      rw [answered.toServer]
      exact List.cons_ne_nil _ _
    cases a with
    | client => exact absurd answered.toClient enabled.2
    | server =>
      rcases server_moves few S.handler answered with offered | ended
      · exact Or.inl ⟨k + 1, rfl, offered⟩
      · exact Or.inr (Or.inr ended)
    | serverTimeout => exact absurd (enabled.2.1 answered.waiting.live) waits
    | clientTimeout => exact absurd (enabled.2.1 answered.waiting.live) waits
  · have through : t.server.status ≠ .sending := by
      rw [ended.server]
      decide
    cases a with
    | client => exact absurd ended.toClient enabled.2
    | server => exact absurd enabled.1 through
    | serverTimeout => exact absurd enabled.1 through
    | clientTimeout => exact Or.inr (Or.inr (over_waits S.handler ended enabled))

/-- So far the server has sent every block at most once and in order, and it goes on until
all are sent. -/
def OnceEach (S : Setup) (acts : List Delivery) (t : Net) : Prop :=
  ∃ sent, sent ≤ blocks S ∧ t.serverSent = sentOnce S sent ∧
    acts.length ≤ 2 * blocks S + maxRetry ∧ ((∃ a, CanDeliver t a) ∨ sent = blocks S)

theorem left_of_block {S : Setup} {k : Nat} (left : k * 512 < S.file.length) :
    k + 1 ≤ blocks S := by
  rw [blocks, Blocks.count]
  omega

theorem Stage.once {S : Setup} {t : Net} {acts : List Delivery} (stage : Stage S t acts.length) :
    OnceEach S acts t := by
  rcases stage with ⟨k, count, offered⟩ | ⟨k, count, answered⟩ | ended
  · have more := left_of_block offered.waiting.left
    refine ⟨k + 1, more, offered.waiting.sent, by omega, Or.inl ⟨.client, offered.client, ?_⟩⟩
    rw [offered.toClient]
    exact List.cons_ne_nil _ _
  · have more := left_of_block answered.waiting.left
    refine ⟨k + 1, more, answered.waiting.sent, by omega,
      Or.inl ⟨.server, answered.waiting.live, ?_⟩⟩
    rw [answered.toServer]
    exact List.cons_ne_nil _ _
  · exact ⟨blocks S, Nat.le_refl _, ended.sent, Nat.le_trans (Nat.le_add_right _ _) ended.bounded,
      Or.inr rfl⟩

theorem network_once {S : Setup} (few : S.file.length ≤ 127 * 512) {ackBuffer : Buffer 4}
    {acts : List Delivery} {t : Net}
    (run : Run (network S S.handler) (begin S ackBuffer) acts t) : OnceEach S acts t := by
  refine (run.history (P := fun acts t => Stage S t acts.length) (begin_stage S ackBuffer)
    (fun acts u a enabled stage => ?_)).once
  rw [List.length_append, List.length_singleton]
  exact deliver_stage few stage enabled

end TFTP.AckAddress
