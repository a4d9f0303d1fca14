import TFTP.DownloadRecovery
import TFTP.Patience
import Mathlib.Algebra.BigOperators.Ring.List
import Mathlib.Algebra.Order.BigOperators.Group.List
import Mathlib.Algebra.Order.Ring.Nat

/-!
# Whether a download comes to an end

The network holds each packet once and loses or delivers it, in any order. A repeated block
draws a repeated acknowledgement and that one the next block again, so copies multiply from
block to block. They do so without end only where the counters stand still: the
acknowledgement of block 128 is not read, and a client with that block that wants another
one and a server that does not hear so go on for ever.
-/

namespace TFTP.DownloadLivelock

open Octets Packet Sockets Runs Download HonestPeers BlockCeiling DownloadRecovery

inductive Event where
  | serverHears (d : List UInt8)
  | serverWaits
  | clientHears (d : List UInt8)
  | clientWaits
  | losesToServer (d : List UInt8)
  | losesToClient (d : List UInt8)

def CanHappen (t : System) : Event → Prop
  | .serverHears d => t.server.status = .sending ∧ d ∈ t.toServer
  | .serverWaits => t.server.status = .sending
  | .clientHears d => t.client.status = .receiving ∧ d ∈ t.toClient
  | .clientWaits => t.client.status = .receiving
  | .losesToServer d => d ∈ t.toServer
  | .losesToClient d => d ∈ t.toClient

/-- The packet an event is about is no longer under way. -/
def taken (t : System) : Event → System
  | .serverHears d | .losesToServer d => { t with toServer := t.toServer.erase d }
  | .clientHears d | .losesToClient d => { t with toClient := t.toClient.erase d }
  | .serverWaits | .clientWaits => t

@[simp] theorem taken_server (t : System) (e : Event) : (taken t e).server = t.server := by
  cases e <;> rfl

@[simp] theorem taken_client (t : System) (e : Event) : (taken t e).client = t.client := by
  cases e <;> rfl

def turnOf (S : Setup) : Event → Option Action
  | .serverHears d => some (.server (.datagram S.client d) .ok)
  | .serverWaits => some (.server .timeout .ok)
  | .clientHears d => some (.client (.datagram S.handler d) .ok)
  | .clientWaits => some (.client .timeout .ok)
  | .losesToServer _ | .losesToClient _ => none

def happen (S : Setup) (t : System) (e : Event) : System :=
  match turnOf S e with
  | some a => step S (taken t e) a
  | none => taken t e

/-- The queues of a `System` are here what is under way. -/
def flight (S : Setup) : Machine System Event := ⟨CanHappen, happen S⟩

/-- The same parties, on a network that keeps every packet. -/
structure Recorded (S : Setup) (t : System) (toClient toServer : List (List UInt8)) : Prop where
  sync : Sync S { t with toClient, toServer }
  toClient : ∀ p ∈ t.toClient, p ∈ toClient
  toServer : ∀ p ∈ t.toServer, p ∈ toServer

theorem recorded_now {S : Setup} {t : System} (sync : Sync S t) :
    Recorded S t t.toClient t.toServer :=
  ⟨sync, fun _ mem => mem, fun _ mem => mem⟩

structure Flying (S : Setup) (t : System) : Prop where
  recorded : ∃ toClient toServer, Recorded S t toClient toServer
  server : t.server.status = .sending → 0 < t.server.retry ∧ t.server.retry ≤ maxRetry
  client : t.client.status = .receiving → 0 < t.client.retry ∧ t.client.retry ≤ maxRetry

theorem Recorded.taken {S : Setup} {t : System} {toClient toServer : List (List UInt8)}
    (recorded : Recorded S t toClient toServer) (e : Event) :
    Recorded S (taken t e) toClient toServer := by
  obtain ⟨sync, client, server⟩ := recorded
  cases e with
  | serverHears d => exact ⟨sync, client, fun p mem => server p (List.mem_of_mem_erase mem)⟩
  | serverWaits => exact ⟨sync, client, server⟩
  | clientHears d => exact ⟨sync, fun p mem => client p (List.mem_of_mem_erase mem), server⟩
  | clientWaits => exact ⟨sync, client, server⟩
  | losesToServer d => exact ⟨sync, client, fun p mem => server p (List.mem_of_mem_erase mem)⟩
  | losesToClient d => exact ⟨sync, fun p mem => client p (List.mem_of_mem_erase mem), server⟩

theorem Recorded.step {S : Setup} {t : System} {toClient toServer : List (List UInt8)}
    (recorded : Recorded S t toClient toServer) {a : Action}
    (enabled : (downloads S).enabled { t with toClient, toServer } a) :
    ∃ toClient' toServer', Recorded S (step S t a) toClient' toServer' := by
  obtain ⟨sync, client, server⟩ := recorded
  have sync' := downloads_sync _ a enabled sync
  cases a with
  | server e io => exact ⟨_, _, sync', mem_extend client, server⟩
  | client e io => exact ⟨_, _, sync', client, mem_extend server⟩

def load (weight : List UInt8 → Nat) (queue : List (List UInt8)) : Nat := (queue.map weight).sum

@[simp] theorem load_nil (weight : List UInt8 → Nat) : load weight [] = 0 := rfl

@[simp] theorem load_singleton (weight : List UInt8 → Nat) (p : List UInt8) :
    load weight [p] = weight p := by simp [load]

theorem load_append (weight : List UInt8 → Nat) (queue new : List (List UInt8)) :
    load weight (queue ++ new) = load weight queue + load weight new := by
  simp [load]

theorem load_erase (weight : List UInt8 → Nat) {queue : List (List UInt8)} {p : List UInt8}
    (mem : p ∈ queue) : weight p + load weight (queue.erase p) = load weight queue :=
  ((List.perm_cons_erase mem).map weight).sum_eq.symm

theorem load_reweighed {weight weight' : List UInt8 → Nat} (least : ∀ p, 1 ≤ weight p)
    (most : ∀ p, weight' p ≤ 61) (queue : List (List UInt8)) :
    load weight' queue ≤ 61 * load weight queue := by
  rw [load, load, ← List.sum_map_mul_left]
  refine List.sum_le_sum fun p _ => Nat.le_trans (most p) ?_
  have some_weight := least p
  omega

theorem load_le_length {weight : List UInt8 → Nat} (most : ∀ p, weight p ≤ 61)
    (queue : List (List UInt8)) : load weight queue ≤ 61 * queue.length := by
  have each := load_reweighed (fun _ => Nat.le_refl 1) most queue
  simpa [load] using each

section Weights

variable (n : UInt16) (a : Nat)

/-- Every packet makes the server send its block once more, but for the acknowledgement that
brings it to the next one. -/
def serverWeight (p : List UInt8) : Nat :=
  if a = n.toNat ∧ a ≤ 127 ∧ p = ackDatagram n then 1 else 55

/-- A block other than the server's draws a late acknowledgement as long as the client waits
for that one. -/
def clientWeight (p : List UInt8) : Nat :=
  if a ≠ n.toNat ∧ opcodeOf p = opcodeData ∧ numberOf p ≠ n then 61 else 7

theorem serverWeight_bounds (p : List UInt8) :
    1 ≤ serverWeight n a p ∧ serverWeight n a p ≤ 55 := by
  rw [serverWeight]
  split <;> omega

theorem clientWeight_bounds (p : List UInt8) :
    7 ≤ clientWeight n a p ∧ clientWeight n a p ≤ 61 := by
  rw [clientWeight]
  split <;> omega

theorem clientWeight_current (file : List UInt8) : clientWeight n a (dataPacket file n) = 7 :=
  if_neg fun other => other.2.2 (dataPacket_reads file n).2

theorem clientWeight_complaint {p : List UInt8} (complaint : Complaint p) :
    clientWeight n a p = 7 := by
  refine if_neg fun other => ?_
  rw [(complaint_reads complaint).2] at other
  exact absurd other.2.1 (by decide)

end Weights

def serverPatience (s : Server.SendLoop) : Nat := if s.status = .sending then s.retry else 0

def clientPatience (s : Client.ReadLoop) : Nat := if s.status = .receiving then s.retry else 0

/-- As long as the counters stand still, a timeout of the server's is paid for by its patience
and a repeated packet by the one it answers. -/
def cost (t : System) : Nat :=
  8 * serverPatience t.server + clientPatience t.client +
    load (serverWeight t.server.blockNumber (accepted t)) t.toServer +
    load (clientWeight t.server.blockNumber (accepted t)) t.toClient

def phase (t : System) : Nat := 257 - (t.server.blockNumber.toNat + accepted t)

section Server

variable (client : Addr) {file : List UInt8} {s : Server.SendLoop}

theorem sentTo_append (dst : Addr) (out out' : List Effect) :
    sentTo dst (out ++ out') = sentTo dst out ++ sentTo dst out' := by
  simp [sentTo, List.filterMap_append]

/-- A turn that leaves the counter alone. -/
structure Stays (client : Addr) (s : Server.SendLoop) (turn : Server.SendLoop × List Effect)
    (most : Nat) : Prop where
  number : turn.1.blockNumber = s.blockNumber
  cost : ∀ a, 8 * serverPatience turn.1 +
    load (clientWeight s.blockNumber a) (sentTo client turn.2) ≤ most

theorem readTop_stays (file : List UInt8) (pos : s.blockNumber ≠ 0) (live : s.status = .sending) :
    Stays client s (Server.readTop client (some file) .ok s) (8 * s.retry + 7) := by
  rcases readTop_ok client file pos live with ⟨left, number, silent⟩ | ⟨_, _, top⟩
  · refine ⟨number, fun a => ?_⟩
    rw [silent, serverPatience, if_neg left]
    exact Nat.zero_le _
  · rw [top]
    refine ⟨rfl, fun a => ?_⟩
    have sent : sentTo client [.send client (dataPacket file s.blockNumber)] =
        [dataPacket file s.blockNumber] := by simp [sentTo]
    rw [sent, load_singleton, clientWeight_current, serverPatience, if_pos live]

theorem timeout_stays (early : Early file s) (live : s.status = .sending)
    (left : 0 < s.retry) :
    Stays client s (Server.readStep client (some file) s .timeout .ok) (8 * s.retry - 1) := by
  obtain ⟨number, cost⟩ := readTop_stays client file
    (s := { s with retry := s.retry - 1 }) early.pos live
  refine ⟨number, fun a => Nat.le_trans (cost a) ?_⟩
  simp only
  omega

theorem other_stays (early : Early file s) (live : s.status = .sending) (src : Addr)
    (d : List UInt8) (other : ¬ (Server.ackOpcodeAt (s.ackBuffer.fill d) = 4 ∧
      Server.ackBlockNumberAt (s.ackBuffer.fill d) = s.blockNumber)) :
    Stays client s (Server.readStep client (some file) s (.datagram src d) .ok) 54 := by
  obtain ⟨number, cost⟩ := readTop_stays client file
    (s := { s with ackBuffer := s.ackBuffer.fill d, retry := maxRetry }) early.pos live
  rw [readStep_other client file src d other]
  refine ⟨number, fun a => ?_⟩
  obtain ⟨p, sent, complaint⟩ : ∃ p, sentTo client [Server.illegalAck client] = [p] ∧
      Complaint p := by
    refine ⟨errorDatagram errorAccessViolation (text "Illegal TFTP operation"), ?_,
      sendError_complaint (rfl : Server.illegalAck client = _)⟩
    simp [sentTo, Server.illegalAck, sendError]
  have spent := cost a
  have full : 8 * maxRetry + 7 = 47 := rfl
  simp only [sentTo_examine] at spent ⊢
  rw [sentTo_append, sent, load_append, load_singleton, clientWeight_complaint _ a complaint]
  omega

/-- The acknowledgement the server waits for ends its loop or brings it to the next block. -/
theorem ack_moves (early : Early file s) (src : Addr) (d : List UInt8)
    (live : s.status = .sending) (op : Server.ackOpcodeAt (s.ackBuffer.fill d) = 4)
    (num : Server.ackBlockNumberAt (s.ackBuffer.fill d) = s.blockNumber) :
    Stays client s (Server.readStep client (some file) s (.datagram src d) .ok) 0 ∨
      (Server.readStep client (some file) s (.datagram src d) .ok).1.blockNumber =
          s.blockNumber + 1 ∧
        (sentTo client (Server.readStep client (some file) s (.datagram src d) .ok).2).length ≤
          1 := by
  obtain ⟨_, _, pos⟩ := next_below early.below num
  rw [Server.readStep, Server.sendStep_ack Server.readManner client (some file) src .ok op num]
  split
  · exact Or.inl ⟨rfl, fun a => by simp [serverPatience, sentTo, examineOpcode, examineNumber]⟩
  · refine Or.inr ?_
    simp only [sentTo_examine]
    rcases readTop_ok client file (s := { s with
        ackBuffer := s.ackBuffer.fill d
        retry := maxRetry
        blockNumber := s.blockNumber + 1 }) pos live with ⟨_, number, silent⟩ | ⟨_, _, top⟩
    · rw [Server.readTop] at number silent
      rw [silent]
      exact ⟨number, Nat.zero_le 1⟩
    · rw [Server.readTop] at top
      rw [top]
      exact ⟨rfl, by simp [sentTo]⟩

end Server

/-- An ERROR packet ends the client's loop. -/
theorem readStep_error (member : Addr) (s : Client.ReadLoop) {src a : Addr} {d : List UInt8}
    (io : LocalIO) (verified : Client.verifySource s.serverAddress s.initialPacket src = some a)
    (h4 : 4 ≤ d.length) (op : opcodeOf d = opcodeError) :
    Client.readStep member s (.datagram src d) io =
      ({ s with
          recievedBuffer := s.recievedBuffer.fill d
          retry := maxRetry
          serverAddress := a
          initialPacket := false
          status := .failed },
        examineOpcode ++ examineNumber ++ [.payload ((received 516 d : Int) - 4)]) := by
  have cap : ¬ received 516 d > maxPacketSize := Nat.not_lt.mpr (received_le 516 d)
  have nonneg : ¬ (received 516 d : Int) - 4 < 0 := by
    rw [received]
    omega
  simp only [Client.readStep, cap, if_false, verified, opcodeAt_fill _ (show 2 ≤ d.length by omega),
    op, ne_eq, not_true_eq_false, false_and, nonneg, if_true]

/-- A packet is worth more than the acknowledgement it draws and the patience it restores. -/
theorem repeat_pays {S : Setup} {t : System} (sync : Sync S t)
    (receiving : t.client.status = .receiving) (few : S.file.length < 65536) {n : UInt16}
    (other : n ≠ t.client.expectedBlockNumber) :
    maxRetry + serverWeight t.server.blockNumber (accepted t)
        (ackDatagram (t.client.expectedBlockNumber - 1)) <
      clientWeight t.server.blockNumber (accepted t) (dataPacket S.file n) := by
  have full := sync.full receiving
  have behind := sync.behind
  have close := sync.close
  have patience : maxRetry = 5 := rfl
  by_cases level : accepted t = t.server.blockNumber.toNat
  -- The acknowledgement is one the server reads, for a client that goes on is below block 128.
  · obtain ⟨again, _⟩ := level_number sync.inv level
    have fresh : accepted t = t.server.blockNumber.toNat ∧ accepted t ≤ 127 ∧
        ackDatagram (t.client.expectedBlockNumber - 1) = ackDatagram t.server.blockNumber :=
      ⟨level, by omega, by rw [again]⟩
    have weight := (clientWeight_bounds t.server.blockNumber (accepted t) (dataPacket S.file n)).1
    rw [serverWeight, if_pos fresh]
    omega
  · have current : t.server.blockNumber = t.client.expectedBlockNumber := by
      apply UInt16.toNat_inj.mp
      have small := t.server.blockNumber.toNat_lt
      rw [sync.inv.counter, UInt16.toNat_ofNat', Nat.mod_eq_of_lt (by omega)]
      omega
    obtain ⟨op, number⟩ := dataPacket_reads S.file n
    have late : accepted t ≠ t.server.blockNumber.toNat ∧
        opcodeOf (dataPacket S.file n) = opcodeData ∧
        numberOf (dataPacket S.file n) ≠ t.server.blockNumber :=
      ⟨level, op, fun same => other ((number.symm.trans same).trans current)⟩
    have weight := (serverWeight_bounds t.server.blockNumber (accepted t)
      (ackDatagram (t.client.expectedBlockNumber - 1))).2
    rw [clientWeight, if_pos late]
    omega

/-- What a packet under way does to the client: it is the block the client waits for, or the
client stays where it is. -/
theorem client_hears {S : Setup} {t : System} (sync : Sync S t)
    (receiving : t.client.status = .receiving) (few : S.file.length < 65536) {d : List UInt8}
    (mem : d ∈ t.toClient) :
    let u := step S t (.client (.datagram S.handler d) .ok)
    (accepted u = accepted t + 1 ∧
      (sentTo S.handler (Client.readStep S.member t.client (.datagram S.handler d) .ok).2).length ≤
        1) ∨
      accepted u = accepted t ∧ clientPatience u.client +
        load (serverWeight t.server.blockNumber (accepted t))
          (sentTo S.handler (Client.readStep S.member t.client (.datagram S.handler d) .ok).2) <
        clientWeight t.server.blockNumber (accepted t) d := by
  have verified := sync.knows.verified
  have unwritten : ∀ u : System, u.trace = t.trace ++
      (Client.readStep S.member t.client (.datagram S.handler d) .ok).2 →
      writes (Client.readStep S.member t.client (.datagram S.handler d) .ok).2 = [] →
      accepted u = accepted t := by
    intro u trace none_written
    rw [accepted, accepted, trace, writes_append, none_written, List.append_nil]
  rcases sync.packets d mem with ⟨n, pos, early, rfl⟩ | complaint
  · obtain ⟨op, number⟩ := dataPacket_reads S.file n
    have h4 : 4 ≤ (dataPacket S.file n).length := by
      rw [dataPacket_length]
      omega
    by_cases expected : n = t.client.expectedBlockNumber
    · obtain ⟨more, _⟩ := client_stores sync mem op (number.trans expected)
      refine Or.inl ⟨more, ?_⟩
      rw [Client.readStep_stores S.member t.client
        (next_stores sync mem op (number.trans expected))]
      simp only [sentTo, examineOpcode, examineNumber, sendACK, List.cons_append, List.nil_append,
        List.filterMap_cons, List.filterMap_nil]
      split <;> simp
    · have repeats := readStep_repeats S.member t.client .ok verified h4 op
        (fun same => expected (number.symm.trans same))
      have pays := repeat_pays sync receiving few expected
      refine Or.inr ⟨unwritten _ rfl ?_, ?_⟩
      · rw [repeats]
        simp [writes, examineOpcode, examineNumber, sendACK]
      · simp only [step, repeats, clientPatience, receiving, if_true]
        simpa [sentTo, examineOpcode, examineNumber, sendACK] using pays
  · obtain ⟨code, rest, same⟩ := complaint_header complaint
    have h4 : 4 ≤ d.length := by
      rw [same, List.length_append, header_length]
      exact Nat.le_add_right 4 _
    have error := readStep_error S.member t.client .ok verified h4 (complaint_reads complaint).2
    refine Or.inr ⟨unwritten _ rfl ?_, ?_⟩
    · rw [error]
      rfl
    · simp only [step, error, clientPatience]
      have weight := (clientWeight_bounds t.server.blockNumber (accepted t) d).1
      simp [sentTo, examineOpcode, examineNumber]
      omega

section Ends

variable {S : Setup} {t : System}

theorem cost_to_server {d : List UInt8} (mem : d ∈ t.toServer) :
    serverWeight t.server.blockNumber (accepted t) d + cost (taken t (.serverHears d)) =
      cost t := by
  have less := load_erase (serverWeight t.server.blockNumber (accepted t)) mem
  change _ + (8 * serverPatience t.server + clientPatience t.client +
    load (serverWeight t.server.blockNumber (accepted t)) (t.toServer.erase d) +
    load (clientWeight t.server.blockNumber (accepted t)) t.toClient) = _
  rw [cost]
  omega

theorem cost_to_client {d : List UInt8} (mem : d ∈ t.toClient) :
    clientWeight t.server.blockNumber (accepted t) d + cost (taken t (.clientHears d)) =
      cost t := by
  have less := load_erase (clientWeight t.server.blockNumber (accepted t)) mem
  change _ + (8 * serverPatience t.server + clientPatience t.client +
    load (serverWeight t.server.blockNumber (accepted t)) t.toServer +
    load (clientWeight t.server.blockNumber (accepted t)) (t.toClient.erase d)) = _
  rw [cost]
  omega

theorem cost_server_stays {e : Recv} {most : Nat} (stays : Stays S.client t.server
    (Server.readStep S.client (some S.file) t.server e .ok) most) :
    phase (step S t (.server e .ok)) = phase t ∧
      cost (step S t (.server e .ok)) + 8 * serverPatience t.server ≤ most + cost t := by
  have same : (step S t (.server e .ok)).server.blockNumber = t.server.blockNumber := stays.number
  have still : accepted (step S t (.server e .ok)) = accepted t := rfl
  have spent := stays.cost (accepted t)
  constructor
  · rw [phase, phase, same, still]
  · rw [cost, cost, same, still]
    simp only [step, load_append]
    omega

theorem cost_client_stays {e : Recv}
    (still : accepted (step S t (.client e .ok)) = accepted t) :
    phase (step S t (.client e .ok)) = phase t ∧
      cost (step S t (.client e .ok)) + clientPatience t.client =
        cost t + (clientPatience (step S t (.client e .ok)).client +
          load (serverWeight t.server.blockNumber (accepted t))
            (sentTo S.handler (Client.readStep S.member t.client e .ok).2)) := by
  have same : (step S t (.client e .ok)).server.blockNumber = t.server.blockNumber := rfl
  constructor
  · rw [phase, phase, same, still]
  · rw [cost, cost, same, still]
    simp only [step, load_append]
    omega

/-- A new phase gives every packet another weight. -/
theorem cost_grows {u : System} {new new' : List (List UInt8)}
    (toServer : u.toServer = t.toServer ++ new) (toClient : u.toClient = t.toClient ++ new')
    (one : new.length + new'.length ≤ 1)
    (left : serverPatience u.server ≤ maxRetry ∧ clientPatience u.client ≤ maxRetry) :
    cost u + 1 < 200 * (cost t + 1) := by
  have patience : maxRetry = 5 := rfl
  have server_least := fun p => (serverWeight_bounds t.server.blockNumber (accepted t) p).1
  have server_most := fun p =>
    Nat.le_trans (serverWeight_bounds u.server.blockNumber (accepted u) p).2 (by decide : 55 ≤ 61)
  have client_least := fun p =>
    Nat.le_trans (by decide : 1 ≤ 7) (clientWeight_bounds t.server.blockNumber (accepted t) p).1
  have client_most := fun p => (clientWeight_bounds u.server.blockNumber (accepted u) p).2
  have server_old := load_reweighed server_least server_most t.toServer
  have client_old := load_reweighed client_least client_most t.toClient
  have server_new := load_le_length server_most new
  have client_new := load_le_length client_most new'
  rw [cost, cost, toServer, toClient, load_append, load_append]
  omega

theorem Flying.patience (flying : Flying S t) :
    serverPatience t.server ≤ maxRetry ∧ clientPatience t.client ≤ maxRetry := by
  rw [serverPatience, clientPatience]
  split_ifs with sending receiving receiving
  · exact ⟨(flying.server sending).2, (flying.client receiving).2⟩
  · exact ⟨(flying.server sending).2, Nat.zero_le _⟩
  · exact ⟨Nat.zero_le _, (flying.client receiving).2⟩
  · exact ⟨Nat.zero_le _, Nat.zero_le _⟩

theorem server_flying (flying : Flying S t) {e : Recv} (live : t.server.status = .sending)
    (heard : ∀ src d, e = .datagram src d → d ∈ t.toServer) (e' : Event) :
    Flying S (step S (taken t e') (.server e .ok)) := by
  obtain ⟨toClient, toServer, recorded⟩ := flying.recorded
  refine ⟨(recorded.taken e').step ⟨?_, rfl⟩, fun again => ?_, ?_⟩
  · cases e with
    | timeout => exact (taken_server t e').symm ▸ live
    | datagram src d =>
      exact ⟨(taken_server t e').symm ▸ live, recorded.toServer d (heard src d rfl)⟩
  · obtain ⟨left, within⟩ := flying.server live
    simp only [step, taken_server] at again ⊢
    obtain ⟨left', within', _⟩ := (Patience.Server.patientSend Server.readManner S.client
      (some S.file)).kept (decide_eq_true live) left within (e, .ok) (decide_eq_true again)
    exact ⟨left', within'⟩
  · simpa [step] using flying.client

theorem client_flying (flying : Flying S t) {e : Recv} (live : t.client.status = .receiving)
    (heard : ∀ src d, e = .datagram src d → src = S.handler ∧ d ∈ t.toClient) (e' : Event) :
    Flying S (step S (taken t e') (.client e .ok)) := by
  obtain ⟨toClient, toServer, recorded⟩ := flying.recorded
  have known : ∀ src d, e = .datagram src d → src = S.handler ∧ d ∈ toClient :=
    fun src d event => (heard src d event).imp_right (recorded.toClient d)
  refine ⟨(recorded.taken e').step ⟨?_, rfl, known⟩, ?_, fun again => ?_⟩
  · cases e with
    | timeout => exact (taken_client t e').symm ▸ live
    | datagram src d => exact ⟨(taken_client t e').symm ▸ live, fun _ => known src d rfl⟩
  · simpa [step] using flying.server
  · obtain ⟨left, within⟩ := flying.client live
    simp only [step, taken_client] at again ⊢
    obtain ⟨left', within', _⟩ := (Patience.Client.patientRead S.member).kept
      (decide_eq_true live) left within (e, .ok) (decide_eq_true again)
    exact ⟨left', within'⟩

theorem happen_flying (flying : Flying S t) (e : Event) (enabled : CanHappen t e) :
    Flying S (happen S t e) := by
  obtain ⟨toClient, toServer, recorded⟩ := flying.recorded
  cases e with
  | serverHears d =>
    refine server_flying flying enabled.1 ?_ (.serverHears d)
    rintro _ _ ⟨⟩
    exact enabled.2
  | serverWaits =>
    refine server_flying flying enabled ?_ .serverWaits
    rintro _ _ ⟨⟩
  | clientHears d =>
    refine client_flying flying enabled.1 ?_ (.clientHears d)
    rintro _ _ ⟨⟩
    exact ⟨rfl, enabled.2⟩
  | clientWaits =>
    refine client_flying flying enabled ?_ .clientWaits
    rintro _ _ ⟨⟩
  | losesToServer d =>
    exact ⟨⟨_, _, recorded.taken (.losesToServer d)⟩, flying.server, flying.client⟩
  | losesToClient d =>
    exact ⟨⟨_, _, recorded.taken (.losesToClient d)⟩, flying.server, flying.client⟩

def Pays (t u : System) : Prop :=
  phase u = phase t ∧ cost u < cost t ∨ phase u < phase t ∧ cost u + 1 < 200 * (cost t + 1)

theorem serverHears_pays (flying : Flying S t) {d : List UInt8}
    (enabled : CanHappen t (.serverHears d)) : Pays t (happen S t (.serverHears d)) := by
  have flying' := happen_flying flying (.serverHears d) enabled
  obtain ⟨toClient, toServer, recorded⟩ := flying.recorded
  obtain ⟨live, mem⟩ := enabled
  have early : Early S.file t.server := recorded.sync.early
  have behind : accepted t ≤ t.server.blockNumber.toNat := recorded.sync.behind
  have taken_cost := cost_to_server mem
  by_cases reads : Server.ackOpcodeAt (t.server.ackBuffer.fill d) = 4 ∧
      Server.ackBlockNumberAt (t.server.ackBuffer.fill d) = t.server.blockNumber
  -- What the server reads as the acknowledgement it waits for ends its loop or the phase.
  · rcases ack_moves S.client early S.client d live reads.1 reads.2 with stays | ⟨number, one⟩
    · obtain ⟨same, spent⟩ : phase (happen S t (.serverHears d)) = phase t ∧
          cost (happen S t (.serverHears d)) + 8 * serverPatience t.server ≤
            0 + cost (taken t (.serverHears d)) := cost_server_stays stays
      have weight := (serverWeight_bounds t.server.blockNumber (accepted t) d).1
      exact Or.inl ⟨same, by omega⟩
    · obtain ⟨short, next, _⟩ := next_below early.below reads.2
      have one : ([] : List (List UInt8)).length + (sentTo S.client (Server.readStep S.client
          (some S.file) t.server (.datagram S.client d) .ok).2).length ≤ 1 := by simpa using one
      have grows : cost (happen S t (.serverHears d)) + 1 <
          200 * (cost (taken t (.serverHears d)) + 1) :=
        cost_grows (List.append_nil _).symm rfl one flying'.patience
      refine Or.inr ⟨?_, by omega⟩
      have value : (happen S t (.serverHears d)).server.blockNumber.toNat =
          t.server.blockNumber.toNat + 1 := (congrArg UInt16.toNat number).trans next
      have still : accepted (happen S t (.serverHears d)) = accepted t := rfl
      rw [phase, phase, value, still]
      omega
  -- Anything else has the weight that pays for five more timeouts and the two packets now.
  · obtain ⟨same, spent⟩ : phase (happen S t (.serverHears d)) = phase t ∧
        cost (happen S t (.serverHears d)) + 8 * serverPatience t.server ≤
          54 + cost (taken t (.serverHears d)) :=
      cost_server_stays (other_stays S.client early live S.client d reads)
    have weight : serverWeight t.server.blockNumber (accepted t) d = 55 := by
      refine if_neg ?_
      rintro ⟨level, low, rfl⟩
      obtain ⟨op, num⟩ := PacketAgreement.ackCheck_fill t.server.ackBuffer t.server.blockNumber
      rw [(loadSigned_bytes_iff t.server.blockNumber).mpr (Or.inl (by omega))] at num
      rw [← ackDatagram_eq] at op num
      exact reads ⟨op, num⟩
    exact Or.inl ⟨same, by omega⟩

theorem clientHears_pays (few : S.file.length < 65536) (flying : Flying S t) {d : List UInt8}
    (enabled : CanHappen t (.clientHears d)) : Pays t (happen S t (.clientHears d)) := by
  have flying' := happen_flying flying (.clientHears d) enabled
  obtain ⟨toClient, toServer, recorded⟩ := flying.recorded
  obtain ⟨live, mem⟩ := enabled
  have below : t.server.blockNumber.toNat ≤ 128 := recorded.sync.early.below
  have behind : accepted t ≤ t.server.blockNumber.toNat := recorded.sync.behind
  have taken_cost := cost_to_client mem
  rcases client_hears recorded.sync live few (recorded.toClient d mem) with
    ⟨more, one⟩ | ⟨still, less⟩
  · have one : (sentTo S.handler (Client.readStep S.member t.client
        (.datagram S.handler d) .ok).2).length + ([] : List (List UInt8)).length ≤ 1 := one
    have grows : cost (happen S t (.clientHears d)) + 1 <
        200 * (cost (taken t (.clientHears d)) + 1) :=
      cost_grows rfl (List.append_nil _).symm one flying'.patience
    refine Or.inr ⟨?_, by omega⟩
    have more : accepted (happen S t (.clientHears d)) = accepted t + 1 := more
    have same : (happen S t (.clientHears d)).server = t.server := rfl
    rw [phase, phase, more, same]
    omega
  · obtain ⟨same, spent⟩ : phase (happen S t (.clientHears d)) = phase t ∧
        cost (happen S t (.clientHears d)) + clientPatience t.client =
          cost (taken t (.clientHears d)) + (clientPatience (happen S t (.clientHears d)).client +
            load (serverWeight t.server.blockNumber (accepted t)) (sentTo S.handler
              (Client.readStep S.member t.client (.datagram S.handler d) .ok).2)) :=
      cost_client_stays still
    have less : clientPatience (happen S t (.clientHears d)).client +
        load (serverWeight t.server.blockNumber (accepted t)) (sentTo S.handler
          (Client.readStep S.member t.client (.datagram S.handler d) .ok).2) <
        clientWeight t.server.blockNumber (accepted t) d := less
    exact Or.inl ⟨same, by omega⟩

theorem happen_pays (few : S.file.length < 65536) (flying : Flying S t) (e : Event)
    (enabled : CanHappen t e) : Pays t (happen S t e) := by
  obtain ⟨toClient, toServer, recorded⟩ := flying.recorded
  cases e with
  | serverHears d => exact serverHears_pays flying enabled
  | serverWaits =>
    have live : t.server.status = .sending := enabled
    obtain ⟨left, _⟩ := flying.server live
    obtain ⟨same, spent⟩ : phase (happen S t .serverWaits) = phase t ∧
        cost (happen S t .serverWaits) + 8 * serverPatience t.server ≤
          8 * t.server.retry - 1 + cost t :=
      cost_server_stays (timeout_stays S.client recorded.sync.early live left)
    rw [serverPatience, if_pos live] at spent
    exact Or.inl ⟨same, by omega⟩
  | clientHears d => exact clientHears_pays few flying enabled
  | clientWaits =>
    have live : t.client.status = .receiving := enabled
    obtain ⟨left, _⟩ := flying.client live
    have still : accepted (step S t (.client .timeout .ok)) = accepted t := by
      simp [accepted, step, Client.readStep]
    obtain ⟨same, spent⟩ := cost_client_stays still
    have less : clientPatience (step S t (.client .timeout .ok)).client ≤ t.client.retry - 1 := by
      rw [clientPatience]
      split
      · exact Nat.le_refl _
      · exact Nat.zero_le _
    rw [clientPatience, if_pos live] at spent
    have silent : sentTo S.handler (Client.readStep S.member t.client .timeout .ok).2 = [] := rfl
    rw [silent, load_nil] at spent
    refine Or.inl ⟨same, ?_⟩
    change cost (step S t (.client .timeout .ok)) < cost t
    omega
  | losesToServer d =>
    have taken_cost := cost_to_server enabled
    have weight := (serverWeight_bounds t.server.blockNumber (accepted t) d).1
    exact Or.inl ⟨rfl, show cost (taken t (.serverHears d)) < cost t by omega⟩
  | losesToClient d =>
    have taken_cost := cost_to_client enabled
    have weight := (clientWeight_bounds t.server.blockNumber (accepted t) d).1
    exact Or.inl ⟨rfl, show cost (taken t (.clientHears d)) < cost t by omega⟩

theorem start_flying (home : S.handler.ip = S.listening.ip) (ackBuffer : Buffer 4) :
    Flying S (start S ackBuffer .ok) := by
  have full : 0 < maxRetry ∧ maxRetry ≤ maxRetry := ⟨by decide, Nat.le_refl maxRetry⟩
  refine ⟨⟨_, _, recorded_now (start_sync home ackBuffer)⟩, fun _ => ?_, fun _ => full⟩
  have retry : (start S ackBuffer .ok).server.retry = maxRetry := by
    simp only [start, Server.readTop, Patience.Server.sendTop_retry]
    rfl
  rw [retry]
  exact full

theorem runs_bounded (home : S.handler.ip = S.listening.ip) (few : S.file.length < 65536)
    (ackBuffer : Buffer 4) {acts : List Event} {t : System}
    (run : Run (flight S) (start S ackBuffer .ok) acts t) :
    acts.length ≤ 200 ^ phase (start S ackBuffer .ok) * (cost (start S ackBuffer .ok) + 1) := by
  have onward : ∀ t e, (flight S).enabled t e → Flying S t →
      Flying S ((flight S).step t e) ∧ Pays t ((flight S).step t e) := fun t e enabled flying =>
    ⟨happen_flying flying e enabled, happen_pays few flying e enabled⟩
  obtain ⟨_, most⟩ := run.phases phase cost (by decide : 0 < 200) onward
    (start_flying home ackBuffer)
  exact Nat.le_trans (Nat.le_add_right _ _) most

end Ends

/-- The server's block is under way to the client, which has so many blocks. -/
structure Offered (S : Setup) (t : System) (count : Nat) : Prop where
  flying : Flying S t
  sending : t.server.status = .sending
  receiving : t.client.status = .receiving
  count : accepted t = count
  there : dataPacket S.file t.server.blockNumber ∈ t.toClient

section Endless

variable {S : Setup} {t : System} {count : Nat}

/-- A block goes out at the head of the server's loop. -/
theorem readTop_offers (client : Addr) {file : List UInt8} {s : Server.SendLoop}
    (patient : s.retry ≠ 0) (pos : s.blockNumber ≠ 0)
    (more : (s.blockNumber.toNat - 1) * 512 < file.length) :
    Server.readTop client (some file) .ok s =
      ({ s with dataSize := (block file s.blockNumber.toNat).length },
        [.send client (dataPacket file s.blockNumber)]) := by
  have value := toNat_pos pos
  have number : s.blockNumber.toNat = s.blockNumber.toNat - 1 + 1 := by omega
  have top := Server.sendTop_block Server.readManner client patient number more
  rwa [← number] at top

/-- The server sends its block once more when it waits in vain. -/
theorem waits_offers (flying : Flying S t) (sending : t.server.status = .sending)
    (receiving : t.client.status = .receiving) (patient : 2 ≤ t.server.retry)
    (more : (t.server.blockNumber.toNat - 1) * 512 < S.file.length) :
    (happen S t .serverWaits).server.blockNumber = t.server.blockNumber ∧
      Offered S (happen S t .serverWaits) (accepted t) := by
  obtain ⟨_, _, recorded⟩ := flying.recorded
  have top := readTop_offers S.client (s := { t.server with retry := t.server.retry - 1 })
    (show t.server.retry - 1 ≠ 0 by omega) recorded.sync.early.pos more
  have turn : Server.readStep S.client (some S.file) t.server .timeout .ok = _ := top
  have number : (happen S t .serverWaits).server.blockNumber = t.server.blockNumber := by
    change (Server.readStep S.client (some S.file) t.server .timeout .ok).1.blockNumber = _
    rw [turn]
  refine ⟨number, happen_flying flying .serverWaits sending, ?_, receiving, rfl, ?_⟩
  · change (Server.readStep S.client (some S.file) t.server .timeout .ok).1.status = _
    rw [turn]
    exact sending
  · rw [number]
    refine List.mem_append_right _ (mem_sentTo.mpr ?_)
    change _ ∈ (Server.readStep S.client (some S.file) t.server .timeout .ok).2
    rw [turn]
    exact List.mem_singleton.mpr rfl

/-- The client stores the block and waits for another one. -/
theorem hears_stores (offered : Offered S t count)
    (behind : count + 1 = t.server.blockNumber.toNat)
    (full : t.server.blockNumber.toNat * 512 ≤ S.file.length) :
    let u := happen S t (.clientHears (dataPacket S.file t.server.blockNumber))
    Flying S u ∧ u.client.status = .receiving ∧ accepted u = count + 1 := by
  obtain ⟨flying, sending, receiving, rfl, there⟩ := offered
  obtain ⟨_, _, recorded⟩ := flying.recorded
  obtain ⟨op, number⟩ := dataPacket_reads S.file t.server.blockNumber
  have expected : t.server.blockNumber = t.client.expectedBlockNumber := by
    apply UInt16.toNat_inj.mp
    have small := t.server.blockNumber.toNat_lt
    rw [recorded.sync.inv.counter, UInt16.toNat_ofNat', ← behind]
    exact (Nat.mod_eq_of_lt (by omega)).symm
  obtain ⟨more, status⟩ := client_stores recorded.sync (recorded.toClient _ there) op
    (number.trans expected)
  refine ⟨happen_flying flying _ ⟨receiving, there⟩, ?_, more⟩
  refine status.trans ((if_neg ?_).trans receiving)
  change ¬ S.file.length < (accepted t + 1) * 512
  omega

/-- The client that has the server's block acknowledges it once more. -/
theorem hears_repeats (offered : Offered S t count) (level : count = t.server.blockNumber.toNat) :
    let u := happen S t (.clientHears (dataPacket S.file t.server.blockNumber))
    Flying S u ∧ u.client.status = .receiving ∧ accepted u = count ∧
      ackDatagram t.server.blockNumber ∈ u.toServer := by
  obtain ⟨flying, sending, receiving, rfl, there⟩ := offered
  obtain ⟨_, _, recorded⟩ := flying.recorded
  obtain ⟨op, number⟩ := dataPacket_reads S.file t.server.blockNumber
  obtain ⟨again, passed⟩ := level_number recorded.sync.inv level
  have h4 : 4 ≤ (dataPacket S.file t.server.blockNumber).length := by
    rw [dataPacket_length]
    omega
  have repeats := readStep_repeats S.member t.client .ok recorded.sync.knows.verified h4 op
    (fun same => passed (number.symm.trans same))
  refine ⟨happen_flying flying _ ⟨receiving, there⟩, ?_, ?_, ?_⟩
  · change (Client.readStep S.member t.client _ .ok).1.status = _
    rw [repeats]
    exact receiving
  · change (writes (t.trace ++ (Client.readStep S.member t.client _ .ok).2)).length = _
    rw [repeats, writes_append]
    simp [accepted, writes, examineOpcode, examineNumber, sendACK]
  · refine List.mem_append_right _ (mem_sentTo.mpr ?_)
    change _ ∈ (Client.readStep S.member t.client _ .ok).2
    rw [repeats, ← again]
    exact List.mem_append_right _ (List.mem_singleton.mpr rfl)

/-- The acknowledgement of a full block brings the server to the next one. -/
theorem ack_offers (flying : Flying S t) (sending : t.server.status = .sending)
    (receiving : t.client.status = .receiving)
    (there : ackDatagram t.server.blockNumber ∈ t.toServer)
    (low : t.server.blockNumber.toNat ≤ 127)
    (more : t.server.blockNumber.toNat * 512 < S.file.length) :
    let u := happen S t (.serverHears (ackDatagram t.server.blockNumber))
    u.server.blockNumber.toNat = t.server.blockNumber.toNat + 1 ∧ u.server.retry = maxRetry ∧
      Offered S u (accepted t) := by
  obtain ⟨_, _, recorded⟩ := flying.recorded
  obtain ⟨next, turn⟩ := server_advances (S := S) recorded.sync.early sending low more
  have turn : Server.readStep S.client (some S.file) t.server
      (.datagram S.client (ackDatagram t.server.blockNumber)) .ok = _ := turn
  have server := congrArg Prod.fst turn
  have number := congrArg Server.SendLoop.blockNumber server
  refine ⟨(congrArg UInt16.toNat number).trans next, congrArg Server.SendLoop.retry server,
    happen_flying flying _ ⟨sending, there⟩, congrArg Server.SendLoop.status server, receiving,
    rfl, ?_⟩
  refine List.mem_append_right _ (mem_sentTo.mpr ?_)
  change .send S.client (dataPacket S.file (Server.readStep S.client (some S.file) t.server
    (.datagram S.client _) .ok).1.blockNumber) ∈
      (Server.readStep S.client (some S.file) t.server (.datagram S.client _) .ok).2
  rw [turn]
  exact List.mem_append_right _ (List.mem_singleton.mpr rfl)

/-- That of block 128 makes it send the block once more. -/
theorem ack_unread (flying : Flying S t) (sending : t.server.status = .sending)
    (receiving : t.client.status = .receiving)
    (there : ackDatagram t.server.blockNumber ∈ t.toServer)
    (last : t.server.blockNumber.toNat = 128) (more : 127 * 512 < S.file.length) :
    let u := happen S t (.serverHears (ackDatagram t.server.blockNumber))
    u.server.blockNumber = t.server.blockNumber ∧ Offered S u (accepted t) := by
  obtain ⟨_, _, recorded⟩ := flying.recorded
  let s : Server.SendLoop := { t.server with
    ackBuffer := t.server.ackBuffer.fill (ackDatagram t.server.blockNumber)
    retry := maxRetry }
  have other : ¬ (Server.ackOpcodeAt s.ackBuffer = 4 ∧
      Server.ackBlockNumberAt s.ackBuffer = t.server.blockNumber) := by
    rintro ⟨_, num⟩
    exact Server.ackBlockNumberAt_ne s.ackBuffer (num.trans (UInt16.toNat_inj.mp last))
  have top := readTop_offers S.client (s := s) (show maxRetry ≠ 0 by decide)
    recorded.sync.early.pos (show (t.server.blockNumber.toNat - 1) * 512 < S.file.length by
      rw [last]
      exact more)
  have turn := readStep_other S.client S.file S.client (ackDatagram t.server.blockNumber) other
  rw [top] at turn
  have server : (happen S t (.serverHears (ackDatagram t.server.blockNumber))).server =
      { s with dataSize := (block S.file t.server.blockNumber.toNat).length } :=
    congrArg Prod.fst turn
  have number : (happen S t (.serverHears (ackDatagram t.server.blockNumber))).server.blockNumber =
      t.server.blockNumber := by rw [server]
  refine ⟨number, happen_flying flying _ ⟨sending, there⟩, ?_, receiving, rfl, ?_⟩
  · rw [server]
    exact sending
  rw [number]
  refine List.mem_append_right _ (mem_sentTo.mpr ?_)
  change _ ∈ (Server.readStep S.client (some S.file) t.server (.datagram S.client _) .ok).2
  rw [turn]
  exact List.mem_append_right _ (List.mem_append_right _ (List.mem_singleton.mpr rfl))

/-- The client stores the block, its acknowledgement goes astray, and the server sends the
block again. -/
theorem round_stored (offered : Offered S t count)
    (behind : count + 1 = t.server.blockNumber.toNat)
    (full : t.server.blockNumber.toNat * 512 ≤ S.file.length) (patient : 2 ≤ t.server.retry) :
    ∃ acts u, Run (flight S) t acts u ∧ u.server.blockNumber = t.server.blockNumber ∧
      Offered S u (count + 1) := by
  let hear : Event := .clientHears (dataPacket S.file t.server.blockNumber)
  obtain ⟨flying, receiving, stored⟩ := hears_stores offered behind full
  have heard : Run (flight S) t ([] ++ [hear]) (happen S t hear) :=
    .snoc (.refl t) ⟨offered.receiving, offered.there⟩
  have more : (t.server.blockNumber.toNat - 1) * 512 < S.file.length := by omega
  have waits : (flight S).enabled (happen S t hear) .serverWaits := offered.sending
  obtain ⟨number, again⟩ := waits_offers flying offered.sending receiving patient more
  rw [stored] at again
  exact ⟨_, _, heard.snoc waits, number, again⟩

/-- The client acknowledges the block once more. -/
theorem round_heard (offered : Offered S t count) (level : count = t.server.blockNumber.toNat) :
    ∃ acts u, Run (flight S) t acts u ∧ u.server = t.server ∧ Flying S u ∧
      u.client.status = .receiving ∧ accepted u = count ∧
      ackDatagram t.server.blockNumber ∈ u.toServer := by
  let hear : Event := .clientHears (dataPacket S.file t.server.blockNumber)
  obtain ⟨flying, receiving, same, there⟩ := hears_repeats offered level
  have heard : Run (flight S) t ([] ++ [hear]) (happen S t hear) :=
    .snoc (.refl t) ⟨offered.receiving, offered.there⟩
  exact ⟨_, _, heard, rfl, flying, receiving, same, there⟩

theorem round_next (offered : Offered S t count) (level : count = t.server.blockNumber.toNat)
    (low : t.server.blockNumber.toNat ≤ 127)
    (more : t.server.blockNumber.toNat * 512 < S.file.length) :
    ∃ acts u, Run (flight S) t acts u ∧
      u.server.blockNumber.toNat = t.server.blockNumber.toNat + 1 ∧ u.server.retry = maxRetry ∧
      Offered S u count := by
  obtain ⟨acts, u, run, same, flying, receiving, rfl, there⟩ := round_heard offered level
  have sending : u.server.status = .sending := same ▸ offered.sending
  rw [← same] at there low more ⊢
  let reply : Event := .serverHears (ackDatagram u.server.blockNumber)
  have replied : (flight S).enabled u reply := ⟨sending, there⟩
  obtain ⟨number, patient, again⟩ := ack_offers flying sending receiving there low more
  exact ⟨_, _, run.snoc replied, number, patient, again⟩

theorem round_again (offered : Offered S t 128) (last : t.server.blockNumber.toNat = 128)
    (more : 127 * 512 < S.file.length) :
    ∃ acts u, Run (flight S) t acts u ∧ acts ≠ [] ∧
      (u.server.blockNumber.toNat = 128 ∧ Offered S u 128) := by
  obtain ⟨acts, u, run, same, flying, receiving, count, there⟩ := round_heard offered last.symm
  have sending : u.server.status = .sending := same ▸ offered.sending
  rw [← same] at there last
  let reply : Event := .serverHears (ackDatagram u.server.blockNumber)
  have replied : (flight S).enabled u reply := ⟨sending, there⟩
  obtain ⟨number, again⟩ := ack_unread flying sending receiving there last more
  rw [count] at again
  exact ⟨_, _, run.snoc replied, by simp, (congrArg UInt16.toNat number).trans last, again⟩

theorem start_offered (home : S.handler.ip = S.listening.ip) (some_bytes : 0 < S.file.length)
    (ackBuffer : Buffer 4) :
    (start S ackBuffer .ok).server.blockNumber.toNat = 1 ∧
      (start S ackBuffer .ok).server.retry = maxRetry ∧
      Offered S (start S ackBuffer .ok) 0 := by
  have top := readTop_offers S.client (s := Server.SendLoop.start ackBuffer)
    (by decide : maxRetry ≠ 0) (by decide : (1 : UInt16) ≠ 0)
    (show (1 - 1) * 512 < S.file.length by omega)
  have flying := start_flying home ackBuffer
  have server : (start S ackBuffer .ok).server = { Server.SendLoop.start ackBuffer with
      dataSize := (block S.file 1).length } := by
    simp only [start, top]
    rfl
  have number : (start S ackBuffer .ok).server.blockNumber = 1 := by
    rw [server]
    rfl
  refine ⟨by rw [number]; rfl, by rw [server]; rfl, flying, by rw [server]; rfl, rfl, rfl, ?_⟩
  rw [number]
  simp only [start, top, mem_sentTo]
  exact List.mem_singleton.mpr rfl

/-- Every block up to the 128th gets under way, and the client has all before it. -/
theorem reaches_block (home : S.handler.ip = S.listening.ip) (long : 65536 ≤ S.file.length)
    (ackBuffer : Buffer 4) (n : Nat) (early : n < 128) :
    ∃ acts t, Run (flight S) (start S ackBuffer .ok) acts t ∧
      t.server.blockNumber.toNat = n + 1 ∧ t.server.retry = maxRetry ∧ Offered S t n := by
  induction n with
  | zero => exact ⟨[], _, .refl _, start_offered home (by omega) ackBuffer⟩
  | succ n ih =>
    obtain ⟨acts, t, run, number, patient, offered⟩ := ih (by omega)
    obtain ⟨acts', u, run', same, stored⟩ := round_stored offered number.symm (by omega)
      (by rw [patient]; decide)
    rw [← same] at number
    obtain ⟨acts'', v, run'', next, patient', offered'⟩ := round_next stored number.symm (by omega)
      (by omega)
    exact ⟨_, v, (run.trans run').trans run'', by rw [next, number], patient', offered'⟩

end Endless

end TFTP.DownloadLivelock
