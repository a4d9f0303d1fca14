import TFTP.AckAddress
import TFTP.DownloadRecovery
import TFTP.Library.Simulation

/-!
# Downloads over a prompt network

The network loses and delays nothing, and the server, which begins to wait first, times
out first. The acknowledgements of new blocks may go astray. Then the server's timeout
repeats the block and the client acknowledges it to the right address, so that a block
takes four deliveries at most.
-/

namespace TFTP.PromptDownload

open Octets Packet Sockets Runs AckAddress DownloadRecovery
open GoodNetwork (Setup blocks)

/-- The client's timer does not run out while the server still waits. -/
def prompt (S : Setup) (member : Addr) : Machine Net Delivery :=
  (network S member).restrict fun t d => d = .clientTimeout → t.server.status ≠ .sending

def asDownload (S : Setup) (member : Addr) : Download.Setup where
  file := S.file
  handler := S.handler
  client := S.client
  member := member
  listening := S.listening

@[simp] theorem asDownload_handler (S : Setup) (member : Addr) :
    (asDownload S member).handler = S.handler := rfl

@[simp] theorem asDownload_client (S : Setup) (member : Addr) :
    (asDownload S member).client = S.client := rfl

@[simp] theorem asDownload_file (S : Setup) (member : Addr) :
    (asDownload S member).file = S.file := rfl

def asAction (S : Setup) (t : Net) : Delivery → Download.Action
  | .server => .server (.datagram S.client (t.toServer.headD [])) .ok
  | .client => .client (.datagram S.handler (t.toClient.headD [])) .ok
  | .serverTimeout => .server .timeout .ok
  | .clientTimeout => .client .timeout .ok

/-- The unreliable network has the parties in the same states and still knows the packets
under way. -/
structure Same (t : Net) (u : Download.System) : Prop where
  server : u.server = t.server
  client : u.client = t.client
  toClient : ∀ p ∈ t.toClient, p ∈ u.toClient
  toServer : ∀ p ∈ t.toServer, p ∈ u.toServer

theorem same_enabled {S : Setup} {member : Addr} {t : Net} {u : Download.System} (same : Same t u)
    {d : Delivery} (enabled : CanDeliver t d) :
    (HonestPeers.downloads (asDownload S member)).enabled u (asAction S t d) := by
  obtain ⟨server, client, toClient, toServer⟩ := same
  have head : ∀ {queue : List (List UInt8)}, queue ≠ [] → queue.headD [] ∈ queue := by
    intro queue some
    cases queue with
    | nil => exact absurd rfl some
    | cons p rest => exact List.mem_cons_self
  cases d with
  | server =>
    refine ⟨⟨?_, toServer _ (head enabled.2)⟩, rfl⟩
    rw [server]
    exact enabled.1
  | client =>
    have there := toClient _ (head enabled.2)
    refine ⟨⟨?_, fun _ => ⟨rfl, there⟩⟩, rfl, ?_⟩
    · rw [client]
      exact enabled.1
    · rintro _ _ ⟨⟩
      exact ⟨rfl, there⟩
  | serverTimeout =>
    refine ⟨?_, rfl⟩
    change u.server.status = _
    rw [server]
    exact enabled.1
  | clientTimeout =>
    refine ⟨?_, rfl, fun _ _ timeout => nomatch timeout⟩
    change u.client.status = _
    rw [client]
    exact enabled.1

theorem same_step {S : Setup} {member : Addr} {t : Net} {u : Download.System} (same : Same t u)
    {d : Delivery} (enabled : CanDeliver t d) : Same (deliver S member t d)
      (Download.step (asDownload S member) u (asAction S t d)) := by
  obtain ⟨server, client, toClient, toServer⟩ := same
  cases d with
  | server =>
    cases queue : t.toServer with
    | nil => exact absurd queue enabled.2
    | cons p rest =>
      have rest_kept : ∀ q ∈ rest, q ∈ u.toServer := fun q mem =>
        toServer q (queue ▸ List.mem_cons_of_mem p mem)
      simp only [deliver, asAction, queue, serverTurn, Download.step, server, List.headD_cons,
        asDownload]
      exact ⟨rfl, client, mem_extend toClient, rest_kept⟩
  | client =>
    cases queue : t.toClient with
    | nil => exact absurd queue enabled.2
    | cons p rest =>
      have rest_kept : ∀ q ∈ rest, q ∈ u.toClient := fun q mem =>
        toClient q (queue ▸ List.mem_cons_of_mem p mem)
      simp only [deliver, asAction, queue, clientTurn, Download.step, client, List.headD_cons,
        asDownload]
      exact ⟨server, rfl, rest_kept, mem_extend toServer⟩
  | serverTimeout =>
    simp only [deliver, asAction, serverTurn, Download.step, server, asDownload]
    exact ⟨rfl, client, mem_extend toClient, toServer⟩
  | clientTimeout =>
    simp only [deliver, asAction, clientTurn, Download.step, client, asDownload]
    exact ⟨server, rfl, toClient, mem_extend toServer⟩

/-- What a prompt network does an unreliable one may do. -/
def unreliable (S : Setup) (member : Addr) : Simulation (network S member)
    (HonestPeers.downloads (asDownload S member)) (fun t _ => (t.server, t.client))
    (fun u _ => (u.server, u.client)) where
  rel := Same
  act := asAction S
  enabled := fun _ _ _ same enabled => same_enabled same enabled
  step := fun _ _ _ same enabled => same_step same enabled
  output := fun _ _ _ same _ => by rw [same.server, same.client]

theorem begin_same (S : Setup) (member : Addr) (ackBuffer : Buffer 4) :
    Same (begin S ackBuffer) (Download.start (asDownload S member) ackBuffer .ok) :=
  ⟨rfl, rfl, fun _ mem => mem, fun _ mem => mem⟩

/-- Where the current block is after so many deliveries, `k` blocks being accepted. -/
inductive Stage (S : Setup) (t : Net) (k count : Nat) : Prop
  | offered (current : k + 1 = t.server.blockNumber.toNat) (patient : 2 ≤ t.server.retry)
      (toClient : t.toClient = [dataPacket S.file t.server.blockNumber])
      (toServer : t.toServer = []) (early : count ≤ 4 * k)
  | stored (level : k = t.server.blockNumber.toNat) (patient : 2 ≤ t.server.retry)
      (toClient : t.toClient = []) (toServer : t.toServer = []) (early : count + 3 ≤ 4 * k)
  | repeated (level : k = t.server.blockNumber.toNat)
      (toClient : t.toClient = [dataPacket S.file t.server.blockNumber])
      (toServer : t.toServer = []) (early : count + 2 ≤ 4 * k)
  | answered (level : k = t.server.blockNumber.toNat) (toClient : t.toClient = [])
      (toServer : t.toServer = [ackDatagram t.server.blockNumber]) (early : count + 1 ≤ 4 * k)

/-- Both parties are in their loops. -/
structure Busy (S : Setup) (member : Addr) (t : Net) (u : Download.System) (count : Nat) :
    Prop where
  same : Same t u
  sync : Sync (asDownload S member) u
  serving : t.server.status = .sending
  receiving : t.client.status = .receiving
  stage : Stage S t (Download.accepted u) count

section Step

variable {S : Setup} {member : Addr} {t : Net} {u : Download.System} {count : Nat}

theorem due_client (receiving : t.client.status = .receiving) {p : List UInt8}
    (toClient : t.toClient = [p]) (toServer : t.toServer = []) (d : Delivery) :
    (prompt S member).enabled t d ↔ d = .client := by
  constructor
  · rintro ⟨enabled, _⟩
    cases d with
    | client => rfl
    | server => exact absurd toServer enabled.2
    | serverTimeout => exact absurd (enabled.2.2 receiving) (by simp [toClient])
    | clientTimeout => exact absurd (enabled.2.2 receiving) (by simp [toClient])
  · rintro rfl
    exact ⟨⟨receiving, by simp [toClient]⟩, fun h => nomatch h⟩

theorem due_server (serving : t.server.status = .sending) {p : List UInt8}
    (toClient : t.toClient = []) (toServer : t.toServer = [p]) (d : Delivery) :
    (prompt S member).enabled t d ↔ d = .server := by
  constructor
  · rintro ⟨enabled, _⟩
    cases d with
    | client => exact absurd toClient enabled.2
    | server => rfl
    | serverTimeout => exact absurd (enabled.2.1 serving) (by simp [toServer])
    | clientTimeout => exact absurd (enabled.2.1 serving) (by simp [toServer])
  · rintro rfl
    exact ⟨⟨serving, by simp [toServer]⟩, fun h => nomatch h⟩

theorem due_resend (serving : t.server.status = .sending) (toClient : t.toClient = [])
    (toServer : t.toServer = []) (d : Delivery) :
    (prompt S member).enabled t d ↔ d = .serverTimeout := by
  constructor
  · rintro ⟨enabled, patient⟩
    cases d with
    | client => exact absurd toClient enabled.2
    | server => exact absurd toServer enabled.2
    | serverTimeout => rfl
    | clientTimeout => exact absurd serving (patient rfl)
  · rintro rfl
    exact ⟨⟨serving, fun _ => toServer, fun _ => toClient⟩, fun h => nomatch h⟩

theorem Busy.next (busy : Busy S member t u count) : ∃ d, (prompt S member).enabled t d := by
  cases busy.stage with
  | offered _ _ toClient toServer _ =>
    exact ⟨_, (due_client busy.receiving toClient toServer _).mpr rfl⟩
  | stored _ _ toClient toServer _ =>
    exact ⟨_, (due_resend busy.serving toClient toServer _).mpr rfl⟩
  | repeated _ toClient toServer _ =>
    exact ⟨_, (due_client busy.receiving toClient toServer _).mpr rfl⟩
  | answered _ toClient toServer _ =>
    exact ⟨_, (due_server busy.serving toClient toServer _).mpr rfl⟩

/-- The state of the unreliable network after the same delivery. -/
def follow (S : Setup) (member : Addr) (t : Net) (u : Download.System) (d : Delivery) :
    Download.System :=
  Download.step (asDownload S member) u (asAction S t d)

theorem Busy.follows (busy : Busy S member t u count) {d : Delivery} (enabled : CanDeliver t d) :
    Same (deliver S member t d) (follow S member t u d) ∧
      Sync (asDownload S member) (follow S member t u d) :=
  ⟨same_step busy.same enabled,
    downloads_sync u (asAction S t d) (same_enabled busy.same enabled) busy.sync⟩

/-- All blocks accepted so far were full. -/
theorem Busy.full (busy : Busy S member t u count) :
    Download.accepted u * 512 ≤ S.file.length := by
  refine busy.sync.full ?_
  rw [busy.same.client]
  exact busy.receiving

/-- The download is through, or goes on. -/
def Onward (S : Setup) (member : Addr) (t : Net) (u : Download.System) (count : Nat) : Prop :=
  t.client.status = .completed ∨ Busy S member t u count

/-- A new block is stored. Its acknowledgement goes to the member. -/
theorem Busy.store (busy : Busy S member t u count)
    (current : Download.accepted u + 1 = t.server.blockNumber.toNat) (patient : 2 ≤ t.server.retry)
    (toClient : t.toClient = [dataPacket S.file t.server.blockNumber]) (toServer : t.toServer = [])
    (early : count ≤ 4 * Download.accepted u) :
    Onward S member (deliver S member t .client) (follow S member t u .client) (count + 1) := by
  have enabled : CanDeliver t .client := ⟨busy.receiving, by simp [toClient]⟩
  obtain ⟨same', sync'⟩ := busy.follows enabled
  obtain ⟨op, number⟩ := dataPacket_reads S.file t.server.blockNumber
  have mem : dataPacket S.file t.server.blockNumber ∈ u.toClient :=
    busy.same.toClient _ (by simp [toClient])
  have expected : t.server.blockNumber = u.client.expectedBlockNumber := by
    apply UInt16.toNat_inj.mp
    rw [busy.sync.inv.counter, UInt16.toNat_ofNat', current]
    exact (Nat.mod_eq_of_lt t.server.blockNumber.toNat_lt).symm
  obtain ⟨more, status⟩ := client_stores busy.sync mem op (number.trans expected)
  rw [asDownload_handler] at more status
  have act : asAction S t .client =
      .client (.datagram S.handler (dataPacket S.file t.server.blockNumber)) .ok := by
    simp [asAction, toClient]
  have after : follow S member t u .client = Download.step (asDownload S member) u
      (.client (.datagram S.handler (dataPacket S.file t.server.blockNumber)) .ok) := by
    rw [follow, act]
  rw [after] at same' sync' ⊢
  by_cases last : S.file.length < (Download.accepted u + 1) * 512
  · refine Or.inl ?_
    rw [← same'.client]
    exact status.trans (if_pos last)
  · refine Or.inr ⟨same', sync', ?_, ?_, ?_⟩
    · simpa [deliver, toClient, clientTurn] using busy.serving
    · rw [← same'.client]
      refine (status.trans (if_neg last)).trans ?_
      rw [busy.same.client]
      exact busy.receiving
    · have stores := next_stores busy.sync mem op (number.trans expected)
      rw [busy.same.client] at stores
      have effects := Client.readStep_stores member t.client stores
      rw [← busy.same.client, ← expected, busy.same.client, asDownload_handler] at effects
      have turn : deliver S member t .client = clientTurn S member t
          (.datagram S.handler (dataPacket S.file t.server.blockNumber)) [] := by
        simp [deliver, toClient]
      rw [turn, more]
      by_cases home : member = S.handler
      · refine .answered current rfl ?_ (by omega)
        simp only [clientTurn, effects, toServer]
        simp [sentTo, examineOpcode, examineNumber, sendACK, home]
      · refine .stored current patient rfl ?_ (by omega)
        simp only [clientTurn, effects, toServer]
        simp [sentTo, examineOpcode, examineNumber, sendACK, home]

/-- The server waits in vain for the acknowledgement and sends its block again. -/
theorem Busy.resend (busy : Busy S member t u count)
    (level : Download.accepted u = t.server.blockNumber.toNat) (patient : 2 ≤ t.server.retry)
    (toClient : t.toClient = []) (toServer : t.toServer = [])
    (early : count + 3 ≤ 4 * Download.accepted u) :
    Onward S member (deliver S member t .serverTimeout) (follow S member t u .serverTimeout)
      (count + 1) := by
  have enabled : CanDeliver t .serverTimeout := ⟨busy.serving, fun _ => toServer, fun _ => toClient⟩
  obtain ⟨same', sync'⟩ := busy.follows enabled
  have full := busy.full
  have pos : 1 ≤ t.server.blockNumber.toNat := by
    rw [← busy.same.server]
    exact BlockCeiling.toNat_pos busy.sync.early.pos
  have turn : Server.readStep S.client (some S.file) t.server .timeout .ok =
      ({ t.server with
          retry := t.server.retry - 1
          dataSize := (block S.file (t.server.blockNumber.toNat - 1 + 1)).length },
        [.send S.client (header 3 t.server.blockNumber ++
          block S.file (t.server.blockNumber.toNat - 1 + 1))]) :=
    Server.sendTop_block Server.readManner S.client
      (s := { t.server with retry := t.server.retry - 1 }) (by simp only; omega)
      (by simp only; omega) (by omega)
  rw [Nat.sub_add_cancel pos] at turn
  have same_count : Download.accepted (follow S member t u .serverTimeout) =
      Download.accepted u := rfl
  refine Or.inr ⟨same', sync', ?_, ?_, ?_⟩
  · simp only [deliver, serverTurn, turn]
    exact busy.serving
  · exact busy.receiving
  · rw [same_count]
    refine .repeated ?_ ?_ toServer (by omega)
    · simp only [deliver, serverTurn, turn]
      exact level
    · simp [deliver, serverTurn, turn, toClient, sentTo, dataPacket]

/-- The client hears its last block again and acknowledges it to the server's address. -/
theorem Busy.answer (busy : Busy S member t u count)
    (level : Download.accepted u = t.server.blockNumber.toNat)
    (toClient : t.toClient = [dataPacket S.file t.server.blockNumber]) (toServer : t.toServer = [])
    (early : count + 2 ≤ 4 * Download.accepted u) :
    Onward S member (deliver S member t .client) (follow S member t u .client) (count + 1) := by
  have enabled : CanDeliver t .client := ⟨busy.receiving, by simp [toClient]⟩
  obtain ⟨same', sync'⟩ := busy.follows enabled
  obtain ⟨op, number⟩ := dataPacket_reads S.file t.server.blockNumber
  obtain ⟨again, passed⟩ := level_number busy.sync.inv (by rw [busy.same.server, level])
  rw [busy.same.server, busy.same.client] at again passed
  have verified := busy.sync.knows.verified
  rw [busy.same.client] at verified
  have repeats := readStep_repeats member t.client .ok verified
    (by rw [dataPacket_length]; omega) op fun same => passed (number.symm.trans same)
  rw [← again, asDownload_handler] at repeats
  have turn : deliver S member t .client = clientTurn S member t
      (.datagram S.handler (dataPacket S.file t.server.blockNumber)) [] := by
    simp [deliver, toClient]
  simp only [clientTurn, repeats, toServer, List.nil_append] at turn
  have same_count : Download.accepted (follow S member t u .client) = Download.accepted u := by
    rw [← counter_pred sync'.inv, ← counter_pred busy.sync.inv, same'.client, busy.same.client,
      turn]
  refine Or.inr ⟨same', sync', ?_, ?_, ?_⟩
  · rw [turn]
    exact busy.serving
  · rw [turn]
    exact busy.receiving
  · rw [same_count, turn]
    refine .answered level rfl ?_ (by omega)
    simp [sentTo, examineOpcode, examineNumber, sendACK]

/-- The acknowledgement of a full block is answered by the next one. -/
theorem Busy.advance (busy : Busy S member t u count) (few : S.file.length < 65536)
    (odd : S.file.length % 512 ≠ 0) (level : Download.accepted u = t.server.blockNumber.toNat)
    (toClient : t.toClient = []) (toServer : t.toServer = [ackDatagram t.server.blockNumber])
    (early : count + 1 ≤ 4 * Download.accepted u) :
    Onward S member (deliver S member t .server) (follow S member t u .server) (count + 1) := by
  have enabled : CanDeliver t .server := ⟨busy.serving, by simp [toServer]⟩
  obtain ⟨same', sync'⟩ := busy.follows enabled
  have full := busy.full
  have early' := busy.sync.early
  rw [busy.same.server] at early'
  obtain ⟨next, advances⟩ := server_advances (S := asDownload S member) early' busy.serving
    (by omega) (show t.server.blockNumber.toNat * 512 < S.file.length by omega)
  rw [asDownload_client, asDownload_file] at advances
  have turn : deliver S member t .server =
      serverTurn S t (.datagram S.client (ackDatagram t.server.blockNumber)) [] := by
    simp [deliver, toServer]
  simp only [serverTurn, advances, toClient, List.nil_append] at turn
  have same_count : Download.accepted (follow S member t u .server) = Download.accepted u := rfl
  refine Or.inr ⟨same', sync', ?_, ?_, ?_⟩
  · rw [turn]
  · rw [turn]
    exact busy.receiving
  · rw [same_count, turn]
    refine .offered ?_ (by decide : 2 ≤ maxRetry) ?_ rfl (by omega)
    · rw [next, level]
    · simp [sentTo, examineOpcode, examineNumber]

theorem Busy.onward (busy : Busy S member t u count) (few : S.file.length < 65536)
    (odd : S.file.length % 512 ≠ 0) {d : Delivery} (enabled : (prompt S member).enabled t d) :
    Onward S member (deliver S member t d) (follow S member t u d) (count + 1) := by
  cases busy.stage with
  | offered current patient toClient toServer early =>
    obtain rfl := (due_client busy.receiving toClient toServer d).mp enabled
    exact busy.store current patient toClient toServer early
  | stored level patient toClient toServer early =>
    obtain rfl := (due_resend busy.serving toClient toServer d).mp enabled
    exact busy.resend level patient toClient toServer early
  | repeated level toClient toServer early =>
    obtain rfl := (due_client busy.receiving toClient toServer d).mp enabled
    exact busy.answer level toClient toServer early
  | answered level toClient toServer early =>
    obtain rfl := (due_server busy.serving toClient toServer d).mp enabled
    exact busy.advance few odd level toClient toServer early

/-- Four deliveries bring every block but the last through; the last takes one. -/
theorem Busy.early (busy : Busy S member t u count) (odd : S.file.length % 512 ≠ 0) :
    count + 4 ≤ 4 * blocks S := by
  have full := busy.full
  have last : Download.accepted u + 1 ≤ blocks S := by
    rw [blocks, Blocks.count]
    omega
  cases busy.stage <;> omega

end Step

theorem begin_busy (S : Setup) (member : Addr) (ackBuffer : Buffer 4)
    (nonempty : 0 < S.file.length) :
    Busy S member (begin S ackBuffer) (Download.start (asDownload S member) ackBuffer .ok) 0 := by
  have top : Server.readTop S.client (some S.file) .ok (.start ackBuffer) =
      ({ Server.SendLoop.start ackBuffer with dataSize := (block S.file (0 + 1)).length },
        [.send S.client (dataPacket S.file 1)]) :=
    Server.sendTop_block Server.readManner S.client (s := .start ackBuffer)
      (by decide : maxRetry ≠ 0) rfl (by omega)
  refine ⟨begin_same S member ackBuffer, start_sync rfl ackBuffer, ?_, rfl, ?_⟩
  · simp only [begin, top]
    rfl
  · refine .offered ?_ ?_ ?_ rfl (Nat.zero_le _)
    · simp only [begin, top]
      rfl
    · simp only [begin, top]
      exact (by decide : 2 ≤ maxRetry)
    · simp only [begin, top, sentTo]
      simp [Server.SendLoop.start]

theorem client_stays {S : Setup} {member : Addr} {t : Net} {d : Delivery} (enabled : CanDeliver t d)
    (done : t.client.status = .completed) : (deliver S member t d).client.status = .completed := by
  cases d with
  | server =>
    cases queue : t.toServer with
    | nil => exact absurd queue enabled.2
    | cons p rest =>
      simp only [deliver, queue]
      exact done
  | client => exact absurd (enabled.1.symm.trans done) (by decide)
  | serverTimeout => exact done
  | clientTimeout => exact absurd (enabled.1.symm.trans done) (by decide)

end TFTP.PromptDownload
